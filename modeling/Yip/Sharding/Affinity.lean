/-
This file is about steering Data datagrams to shards by what stands in their headers
(`shard_for_outer_udp` in `sharding.rs`).
-/

import Yip.Sharding
import Yip.Transport.ObjectIds

namespace Yip

open Transport Wire List

/-! ### Masked numbers -/

theorem mul_add_xor_mul_add {width first second low other : Nat} (lowFits : low < 256 ^ width)
    (otherFits : other < 256 ^ width) :
    (first * 256 ^ width + low) ^^^ (second * 256 ^ width + other) =
      (first ^^^ second) * 256 ^ width + (low ^^^ other) := by
  have power : 256 ^ width = 2 ^ (8 * width) := by
    rw [pow_mul, show 2 ^ 8 = 256 by decide]
  rw [power] at lowFits otherFits ⊢
  apply Nat.eq_of_testBit_eq
  intro bit
  rw [Nat.mul_comm first, Nat.mul_comm second, Nat.mul_comm (first ^^^ second), Nat.testBit_xor,
    Nat.testBit_two_pow_mul_add _ lowFits, Nat.testBit_two_pow_mul_add _ otherFits,
    Nat.testBit_two_pow_mul_add _ (Nat.xor_lt_two_pow lowFits otherFits)]
  split <;> rw [Nat.testBit_xor]

theorem ofBeBytes_xorInPlace (bytes mask : List Byte) (length : bytes.length = mask.length) :
    ofBeBytes (xorInPlace bytes mask) = ofBeBytes bytes ^^^ ofBeBytes mask := by
  induction bytes generalizing mask with
  | nil =>
    obtain rfl : mask = [] := length_eq_zero_iff.mp length.symm
    rfl
  | cons byte rest ih =>
    obtain ⟨pad, others, rfl⟩ : ∃ pad others, mask = pad :: others :=
      exists_cons_of_length_pos (by rw [← length]; exact Nat.succ_pos _)
    have lengths : rest.length = others.length := Nat.succ.inj length
    have masked : xorInPlace (byte :: rest) (pad :: others) =
        byte.xor pad :: xorInPlace rest others := rfl
    have same : (xorInPlace rest others).length = others.length := by
      rw [xorInPlace, length_zipWith, lengths, min_self]
    have digits : (byte.xor pad).toNat = byte.toNat ^^^ pad.toNat := BitVec.toNat_xor _ _
    rw [masked, ofBeBytes_cons, ofBeBytes_cons, ofBeBytes_cons, same, lengths, digits,
      ih others lengths]
    exact (mul_add_xor_mul_add (lengths ▸ ofBeBytes_lt rest) (ofBeBytes_lt others)).symm

namespace DataPlane

variable {env : Primitives} (dp : DataPlane env)

/-! ### What a datagram is steered by -/

/-- The mask that protects the header of a symbol's datagram; it is made from the datagram's own
authentication tag. -/
def maskOf (symbol : Symbol) (counter : Nat) (flow : FlowClass) : List Byte :=
  let frame := symbolToFrame dp.connTag symbol counter flow
  headerMask env.sip dp.codec.hpKey
    (authTag env.sip dp.codec.authKey (writeHeader frame) frame.payload)

/-- What the mask adds to the connection tag and to the object id. -/
def steeringPad (symbol : Symbol) (counter : Nat) (flow : FlowClass) : Nat × Nat :=
  (ofBeBytes ((dp.maskOf symbol counter flow).take 8),
    ofBeBytes (((dp.maskOf symbol counter flow).drop 8).take 2))

/-- The shard of an object once a pad is added to the tag and the id. -/
def paddedShard (objectId : Nat) (pad : Nat × Nat) (numShards : Nat) : Nat :=
  shardForFecSymbol (dp.connTag % 256 ^ 8 ^^^ pad.1) (objectId % 256 ^ 2 ^^^ pad.2) numShards

theorem shardForOuterUdp_dataDatagram (symbol : Symbol) (counter : Nat) (flow : FlowClass)
    {numShards : Nat} (several : 1 < numShards) :
    shardForOuterUdp (dp.dataDatagram symbol counter flow).bytes numShards =
      some (dp.paddedShard symbol.objectId (dp.steeringPad symbol counter flow) numShards) := by
  let frame := symbolToFrame dp.connTag symbol counter flow
  let mask := dp.maskOf symbol counter flow
  let masked := xorInPlace (writeHeader frame) mask
  have maskLength : mask.length = headerLen := length_headerMask _ _ _
  have maskedLength : masked.length = headerLen := by
    simp only [masked, xorInPlace, length_zipWith, length_writeHeader, maskLength, min_self]
  obtain ⟨rest, bytes⟩ : ∃ rest, (dp.dataDatagram symbol counter flow).bytes =
      PacketType.data.toByte :: (masked ++ rest) :=
    ⟨_, congrArg _ (append_assoc _ frame.payload _)⟩
  have long : ¬ (numShards ≤ 1 ∨ (PacketType.data.toByte :: (masked ++ rest)).length < 11) := by
    rw [length_cons, length_append, maskedLength, headerLen]
    omega
  have header : (masked ++ rest).take 10 = masked.take 10 :=
    take_append_of_le_length (by rw [maskedLength, headerLen]; decide)
  have tagBytes : (masked.take 10).take 8 = xorInPlace (toBeBytes 8 dp.connTag) (mask.take 8) := by
    have tag : toBeBytes 8 dp.connTag = (writeHeader frame).take 8 := (take_writeHeader frame).symm
    rw [take_take, tag]
    exact take_zipWith
  have idBytes : ((masked.take 10).drop 8).take 2 =
      xorInPlace (toBeBytes 2 symbol.objectId) ((mask.drop 8).take 2) := by
    have id : toBeBytes 2 symbol.objectId = ((writeHeader frame).drop 8).take 2 :=
      (take_drop_writeHeader frame).symm
    rw [drop_take, take_take, id, xorInPlace, ← take_zipWith, ← drop_zipWith]
    rfl
  have tagLength : (toBeBytes 8 dp.connTag).length = (mask.take 8).length := by
    rw [length_toBeBytes, length_take, maskLength, headerLen]
    rfl
  have idLength : (toBeBytes 2 symbol.objectId).length = ((mask.drop 8).take 2).length := by
    rw [length_toBeBytes, length_take, length_drop, maskLength, headerLen]
    rfl
  have tenBytes : ¬ (numShards ≤ 1 ∨ (masked.take 10).length < 10) := by
    rw [length_take, maskedLength, headerLen]
    omega
  rw [shardForOuterUdp, bytes, if_neg long, head?_cons, if_pos rfl, drop_succ_cons,
    drop_zero, header, shardForWireHeader, if_neg tenBytes, tagBytes, idBytes,
    ofBeBytes_xorInPlace _ _ tagLength, ofBeBytes_xorInPlace _ _ idLength, ofBeBytes_toBeBytes,
    ofBeBytes_toBeBytes]
  rfl

theorem steeringPad_congr {first second : Symbol} {counter : Nat} {flow : FlowClass}
    (same : (dp.maskOf first counter flow).take 10 = (dp.maskOf second counter flow).take 10) :
    dp.steeringPad first counter flow = dp.steeringPad second counter flow := by
  have tagBytes := congrArg (List.take 8) same
  have idBytes := congrArg (List.drop 8) same
  rw [take_take, take_take] at tagBytes
  rw [drop_take, drop_take] at idBytes
  exact congrArg₂ (fun tag id => (ofBeBytes tag, ofBeBytes id)) tagBytes idBytes

/-- All datagrams of an object are steered to one shard if there is no choice of a shard, if the
object is a single symbol, or if the masks of its datagrams agree on the ten bytes that protect tag
and object id. -/
theorem object_one_shard (ciphertext : List Byte) (params : FlowParams)
    (objectId repair counter : Nat) (flow : FlowClass) (numShards : Nat)
    (steady : numShards ≤ 1 ∨ (FecEncoder.build ciphertext params objectId repair).length = 1 ∨
      ∀ first ∈ FecEncoder.build ciphertext params objectId repair,
        ∀ second ∈ FecEncoder.build ciphertext params objectId repair,
          (dp.maskOf first counter flow).take 10 = (dp.maskOf second counter flow).take 10) :
    ∀ first ∈ FecEncoder.build ciphertext params objectId repair,
      ∀ second ∈ FecEncoder.build ciphertext params objectId repair,
        shardForOuterUdp (dp.dataDatagram first counter flow).bytes numShards =
          shardForOuterUdp (dp.dataDatagram second counter flow).bytes numShards := by
  intro first inFirst second inSecond
  rcases Nat.lt_or_ge 1 numShards with several | few
  · rcases steady with few | single | masks
    · exact absurd few (Nat.not_le_of_lt several)
    · obtain ⟨symbol, only⟩ := length_eq_one_iff.mp single
      rw [only] at inFirst inSecond
      rw [mem_singleton.mp inFirst, mem_singleton.mp inSecond]
    · rw [dp.shardForOuterUdp_dataDatagram first counter flow several,
        dp.shardForOuterUdp_dataDatagram second counter flow several,
        FecEncoder.objectId_of_mem_build inFirst, FecEncoder.objectId_of_mem_build inSecond,
        dp.steeringPad_congr (masks first inFirst second inSecond)]
  · rw [shardForOuterUdp, if_pos (Or.inl few), shardForOuterUdp, if_pos (Or.inl few)]

end DataPlane

/-! ### The keyed hash of the codec -/

namespace SipHash

structure State where
  v0 : BitVec 64
  v1 : BitVec 64
  v2 : BitVec 64
  v3 : BitVec 64

def round (state : State) : State :=
  let v0 := state.v0 + state.v1
  let v1 := state.v1.rotateLeft 13 ^^^ v0
  let v0 := v0.rotateLeft 32
  let v2 := state.v2 + state.v3
  let v3 := state.v3.rotateLeft 16 ^^^ v2
  let v0 := v0 + v3
  let v3 := v3.rotateLeft 21 ^^^ v0
  let v2 := v2 + v1
  let v1 := v1.rotateLeft 17 ^^^ v2
  let v2 := v2.rotateLeft 32
  ⟨v0, v1, v2, v3⟩

def word (bytes : List Byte) : BitVec 64 :=
  BitVec.ofNat 64 (bytes.foldr (fun byte rest => byte.toNat + 256 * rest) 0)

def compress (state : State) (message : BitVec 64) : State :=
  let state := round { state with v3 := state.v3 ^^^ message }
  { state with v0 := state.v0 ^^^ message }

def absorb (length : Nat) : State → List Byte → State
  | state, b0 :: b1 :: b2 :: b3 :: b4 :: b5 :: b6 :: b7 :: rest =>
    absorb length (compress state (word [b0, b1, b2, b3, b4, b5, b6, b7])) rest
  | state, tail => compress state (word tail ||| BitVec.ofNat 64 length <<< 56)

def sip13 : Sip := fun key message =>
  let k0 := word (key.take 8)
  let k1 := word ((key.drop 8).take 8)
  let state := absorb message.length
    ⟨k0 ^^^ 0x736f6d6570736575#64, k1 ^^^ 0x646f72616e646f6d#64, k0 ^^^ 0x6c7967656e657261#64,
      k1 ^^^ 0x7465646279746573#64⟩ message
  let state := round (round (round { state with v2 := state.v2 ^^^ 0xff#64 }))
  state.v0 ^^^ state.v1 ^^^ state.v2 ^^^ state.v3

-- The value of the empty message under the key 0, 1, ..., 15.
example : sip13 ((List.range 16).map Byte.ofNat) [] = 0xabac0158050fc4dc#64 := by decide +kernel

/-- A data plane with the hash the program uses. -/
def dataPlane : DataPlane { Transparent.primitives .default with sip := sip13 } :=
  let authKey := (List.range 16).map Byte.ofNat
  let hpKey := (List.range 16).map fun index => Byte.ofNat (16 + index)
  DataPlane.new _ ⟨Crypto.Session.fromRawKeys [] [] 0 1, authKey, hpKey, [], []⟩
    (connTagFromKeys authKey hpKey) false ⟨1, 1⟩ false 1200

/-- Without a repair symbol the object is one datagram, and with two shards it goes to shard 1. -/
theorem lone_symbol_steered :
    (FecEncoder.build (List.replicate 20 0) FlowClass.default.params 1 0).map (fun symbol =>
        shardForOuterUdp (dataPlane.dataDatagram symbol 1 .default).bytes 2) = [some 1] ∧
      ∀ first ∈ FecEncoder.build (List.replicate 20 0) FlowClass.default.params 1 0,
        ∀ second ∈ FecEncoder.build (List.replicate 20 0) FlowClass.default.params 1 0,
          shardForOuterUdp (dataPlane.dataDatagram first 1 .default).bytes 2 =
            shardForOuterUdp (dataPlane.dataDatagram second 1 .default).bytes 2 :=
  ⟨by decide +kernel,
    dataPlane.object_one_shard _ _ 1 0 1 .default 2 (Or.inr (Or.inl (by decide +kernel)))⟩

/-- An object of one source and one repair symbol: with two shards, the source goes to shard 1 and
the repair to shard 0. -/
theorem repair_symbol_leaves_shard :
    (FecEncoder.build (List.replicate 20 0) FlowClass.default.params 1 1).map (fun symbol =>
      shardForOuterUdp (dataPlane.dataDatagram symbol 1 .default).bytes 2) = [some 1, some 0] := by
  decide +kernel

end SipHash

end Yip
