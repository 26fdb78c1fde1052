/-
This file models the messages of the rendezvous protocol (`proto.rs`) and their codec.
-/

import Yip.Members.Record

namespace Yip.Rdv

open Members List Option

/-- The messages between nodes and the rendezvous. -/
inductive Message where
  | register (node : NodeId) (counter : Nat)
  | lookup (node : NodeId)
  | peerInfo (node : NodeId) (reflexive : Members.SocketAddr) (record : Option Record)
  | notFound (node : NodeId)
  | punchHint (node : NodeId) (reflexive : Members.SocketAddr)
  | relaySend (src dst : NodeId) (payload : List Byte)
  | relayDeliver (src : NodeId) (payload : List Byte)
  | registerSigned (record : Record)
  | registerAuth (node : NodeId) (counter : Nat) (mac : Bytes 16)
  deriving DecidableEq

def computeRegisterMac (suite : Suite) (obfKey : Bytes 16) (node : NodeId) (counter : Nat) :
    Bytes 16 :=
  suite.blake2s 16 (asciiBytes "yip-rendezvous-v1-reg-auth" ++ obfKey.toList ++ node.toList ++
    toBeBytes 8 counter)

def verifyRegisterMac (suite : Suite) (obfKey : Bytes 16) (node : NodeId) (counter : Nat)
    (mac : Bytes 16) : Bool := computeRegisterMac suite obfKey node counter = mac

/-! ### Encoding -/

def putRecord (record : Record) : Option (List Byte) := do
  let bytes ← record.encode
  let length ← lengthField bytes.length
  return length ++ bytes

def putMaybeRecord : Option Record → Option (List Byte)
  | some record => (putRecord record).map (Byte.ofNat 1 :: ·)
  | none => some [Byte.ofNat 0]

def encode : Message → Option (List Byte)
  | .register node counter => some (Byte.ofNat 0 :: (node.toList ++ toBeBytes 8 counter))
  | .lookup node => some (Byte.ofNat 1 :: node.toList)
  | .peerInfo node reflexive record =>
    (putMaybeRecord record).map fun bytes =>
      Byte.ofNat 2 :: (node.toList ++ putAddr reflexive ++ bytes)
  | .notFound node => some (Byte.ofNat 3 :: node.toList)
  | .punchHint node reflexive => some (Byte.ofNat 4 :: (node.toList ++ putAddr reflexive))
  | .relaySend src dst payload => some (Byte.ofNat 5 :: (src.toList ++ dst.toList ++ payload))
  | .relayDeliver src payload => some (Byte.ofNat 6 :: (src.toList ++ payload))
  | .registerSigned record => (putRecord record).map (Byte.ofNat 7 :: ·)
  | .registerAuth node counter mac =>
    some (Byte.ofNat 8 :: (node.toList ++ toBeBytes 8 counter ++ mac.toList))

/-! ### Decoding -/

def takeRecord (buf : List Byte) : Option Record := do
  let (length, buf) ← takeUint 2 buf
  let (bytes, _) ← takeBytes length buf
  Record.decode bytes.toList

def takeMaybeRecord : List Byte → Option (Option Record)
  | [] => some none
  | presence :: rest =>
    if presence = Byte.ofNat 0 then some none
    else if presence = Byte.ofNat 1 then (takeRecord rest).map some
    else none

def decodeBody (tag : Nat) (rest : List Byte) : Option Message :=
  match tag with
  | 0 => do
    let (node, rest) ← takeBytes 16 rest
    let (counter, _) ← takeUint 8 rest
    return .register node counter
  | 1 => (takeBytes 16 rest).map fun (node, _) => .lookup node
  | 2 => do
    let (node, rest) ← takeBytes 16 rest
    let (reflexive, rest) ← takeAddr rest
    let record ← takeMaybeRecord rest
    return .peerInfo node reflexive record
  | 3 => (takeBytes 16 rest).map fun (node, _) => .notFound node
  | 4 => do
    let (node, rest) ← takeBytes 16 rest
    let (reflexive, _) ← takeAddr rest
    return .punchHint node reflexive
  | 5 => do
    let (src, rest) ← takeBytes 16 rest
    let (dst, payload) ← takeBytes 16 rest
    return .relaySend src dst payload
  | 6 => (takeBytes 16 rest).map fun (src, payload) => .relayDeliver src payload
  | 7 => (takeRecord rest).map .registerSigned
  | 8 =>
    if rest.length ≠ 40 then none
    else do
      let (node, rest) ← takeBytes 16 rest
      let (counter, rest) ← takeUint 8 rest
      let (mac, _) ← takeBytes 16 rest
      return .registerAuth node counter mac
  | _ => none

def decode : List Byte → Option Message
  | [] => none
  | tag :: rest => decodeBody tag.toNat rest

/-! ### Round trip -/

/-- The numbers in the message fit their fields. -/
def Message.Sized : Message → Prop
  | .register _ counter | .registerAuth _ counter _ => counter < 256 ^ 8
  | .peerInfo _ _ (some record) | .registerSigned record => record.Sized
  | _ => True

variable {record : Record} {bytes : List Byte} {message : Message} {body : List Byte}

theorem takeRecord_putRecord (sized : record.Sized) (written : putRecord record = some bytes)
    (rest : List Byte) : takeRecord (bytes ++ rest) = some record := by
  obtain ⟨encoded, isEncoded, measured⟩ := bind_eq_some_iff.mp written
  obtain ⟨length, isLength, same⟩ := bind_eq_some_iff.mp measured
  obtain rfl := some.inj same
  obtain ⟨fits, rfl⟩ := lengthField_eq_some_iff.mp isLength
  have decoded : Record.decode encoded = some record :=
    Record.decode_eq_some_iff.mpr ⟨sized, isEncoded⟩
  simp [takeRecord, takeUint_append 2 fits, takeBytes_length_append, decoded]

theorem takeMaybeRecord_putMaybeRecord {record : Option Record}
    (sized : ∀ present ∈ record, present.Sized) (written : putMaybeRecord record = some bytes) :
    takeMaybeRecord bytes = some record := by
  cases record with
  | none =>
    obtain rfl := some.inj written
    simp [takeMaybeRecord]
  | some present =>
    obtain ⟨body, isBody, rfl⟩ := map_eq_some_iff.mp written
    have read := takeRecord_putRecord (sized present rfl) isBody []
    rw [append_nil] at read
    have apart : Byte.ofNat 1 ≠ Byte.ofNat 0 := by decide
    simp [takeMaybeRecord, apart, read]

theorem decode_encode (sized : message.Sized) (encoded : encode message = some bytes) :
    decode bytes = some message := by
  cases message with
  | register node counter =>
    obtain rfl := some.inj encoded
    have read := takeUint_append 8 sized []
    rw [append_nil] at read
    simp [decode, decodeBody, Byte.toNat_ofNat, takeBytes_append, read]
  | lookup node =>
    obtain rfl := some.inj encoded
    simp [decode, decodeBody, Byte.toNat_ofNat, takeBytes_toList]
  | peerInfo node reflexive record =>
    obtain ⟨body, written, rfl⟩ := map_eq_some_iff.mp encoded
    have address : takeAddr (putAddr reflexive ++ body) = some (reflexive, body) :=
      takeAddr_eq_some_iff.mpr rfl
    have present : takeMaybeRecord body = some record := by
      refine takeMaybeRecord_putMaybeRecord ?_ written
      rintro present ⟨⟩
      exact sized
    simp [decode, decodeBody, Byte.toNat_ofNat, takeBytes_append, address, present]
  | notFound node =>
    obtain rfl := some.inj encoded
    simp [decode, decodeBody, Byte.toNat_ofNat, takeBytes_toList]
  | punchHint node reflexive =>
    obtain rfl := some.inj encoded
    have address : takeAddr (putAddr reflexive) = some (reflexive, []) :=
      takeAddr_eq_some_iff.mpr (append_nil _).symm
    simp [decode, decodeBody, Byte.toNat_ofNat, takeBytes_append, address]
  | relaySend src dst payload =>
    obtain rfl := some.inj encoded
    simp [decode, decodeBody, Byte.toNat_ofNat, takeBytes_append]
  | relayDeliver src payload =>
    obtain rfl := some.inj encoded
    simp [decode, decodeBody, Byte.toNat_ofNat, takeBytes_append]
  | registerSigned record =>
    obtain ⟨body, written, rfl⟩ := map_eq_some_iff.mp encoded
    have read := takeRecord_putRecord sized written []
    rw [append_nil] at read
    simp [decode, decodeBody, Byte.toNat_ofNat, read]
  | registerAuth node counter mac =>
    obtain rfl := some.inj encoded
    simp [decode, decodeBody, Byte.toNat_ofNat, takeBytes_append,
      takeUint_append 8 sized, takeBytes_toList]

end Yip.Rdv
