/-
This file models the egress of the obfuscation layer: the two loops that make the keystream, one
to wrap and one to unwrap, and `obf_egress`, which pads every datagram to a bucket while traffic
defence is on.
-/

import Yip.Obf
import Yip.Primitives

namespace Yip.Obf

open Members List

/-! ### The keystream -/

section Loops

variable (sip : Wire.Sip) (key : Bytes 16) (nonce : Bytes 8)

def block (counter : Nat) : List Byte :=
  toBeBytes 8 (sip key.toList (nonce.toList ++ toBeBytes 8 counter)).toNat

def blocks (counter count : Nat) : List Byte :=
  (List.range' counter count).flatMap (block sip key nonce)

def extend (length counter : Nat) (out : List Byte) : List Byte :=
  if out.length < length then extend length (counter + 1) (out ++ block sip key nonce counter)
  else out.take length
termination_by length - out.length
decreasing_by
  rw [length_append, block, length_toBeBytes]
  omega

variable {sip key nonce}

end Loops

/-! ### Buckets -/

inductive TrafficDefensePreset where
  | off
  | balanced
  | paranoid
  deriving DecidableEq

structure TrafficDefenseConfig where
  preset : TrafficDefensePreset
  buckets : List Nat

def TrafficDefenseConfig.Active (defense : TrafficDefenseConfig) : Prop :=
  defense.preset ≠ .off ∧ defense.buckets ≠ []

instance (defense : TrafficDefenseConfig) : Decidable defense.Active :=
  inferInstanceAs (Decidable (_ ∧ _))

def roundToBucket (rawWireLen : Nat) (buckets : List Nat) (maxBudget : Nat) : Nat :=
  if buckets = [] then rawWireLen
  else
    match buckets.find? (rawWireLen ≤ ·) with
    | some bucket => if bucket ≤ maxBudget then bucket else max maxBudget rawWireLen
    | none => max maxBudget rawWireLen

variable {rawWireLen budget : Nat} {buckets : List Nat}

def rdvType : Byte := Byte.ofNat 5

def junkType : Byte := Byte.ofNat 6

def obfMtuBudget : Nat := 1200

def obfDataPadMax : Nat := 64

def maxBudget : Nat := max 1420 obfMtuBudget

structure ObfPeer where
  endpoint : Option SocketAddr
  currentObfKey : Option (Option (Bytes 16))
  sessionObfKey : Option (Bytes 16)

structure ObfLayer where
  server : Option SocketAddr
  obfKey : Option (Bytes 16)
  peers : List ObfPeer
  trafficDefense : TrafficDefenseConfig

structure Draw where
  nonce : Bytes 8
  pad : Nat
  junk : Nat

def isHandshake (ptype : Byte) : Bool :=
  ptype = PacketType.handshakeInit.toByte || ptype = PacketType.handshakeResp.toByte

def obfPadMax (ptype : Byte) (dgLen : Nat) : Nat :=
  let room := obfMtuBudget - (dgLen - 1 + minEnvelope)
  if isHandshake ptype then room else min room obfDataPadMax

def randomPad (draw max : Nat) : Nat := draw % (max + 1)

namespace ObfLayer

def validBuckets (layer : ObfLayer) : List Nat :=
  (layer.trafficDefense.buckets.filter (· ≤ maxBudget)).take 8

def ByFate (layer : ObfLayer) (dg : EgressDatagram) (ptype : Byte) : Prop :=
  ptype = junkType ∧ dg.fate > 0 ∧ dg.fate ∈ layer.trafficDefense.buckets

instance (layer : ObfLayer) (dg : EgressDatagram) (ptype : Byte) :
    Decidable (layer.ByFate dg ptype) :=
  inferInstanceAs (Decidable (_ ∧ _ ∧ _))

def targetWire (layer : ObfLayer) (dg : EgressDatagram) (ptype : Byte) (body : List Byte)
    (draw : Draw) : Nat :=
  if layer.ByFate dg ptype then dg.fate
  else if ptype = junkType ∧ body = [] then
    layer.validBuckets.getD (draw.junk % layer.validBuckets.length) maxBudget
  else roundToBucket (minEnvelope + body.length) layer.trafficDefense.buckets maxBudget

def padding (layer : ObfLayer) (dg : EgressDatagram) (ptype : Byte) (body : List Byte)
    (draw : Draw) : Nat :=
  if layer.trafficDefense.Active then
    layer.targetWire dg ptype body draw - (minEnvelope + body.length)
  else randomPad draw.pad (obfPadMax ptype (body.length + 1))

variable {layer : ObfLayer} {dg : EgressDatagram} {ptype : Byte} {body : List Byte} {draw : Draw}

/-- A decoy has room in the bucket it is to fill: the one its fate names or, if it has no body, the
one drawn among those within the budget. Other datagrams always have room. -/
def Roomy (layer : ObfLayer) (dg : EgressDatagram) (ptype : Byte) (body : List Byte)
    (draw : Draw) : Prop :=
  ptype = junkType →
    if 0 < dg.fate ∧ dg.fate ∈ layer.trafficDefense.buckets then
      minEnvelope + body.length ≤ dg.fate
    else body = [] → ∀ bucket ∈ layer.validBuckets[draw.junk % layer.validBuckets.length]?,
      minEnvelope ≤ bucket

def clear : Wire.Sip := fun _ _ => 0

def drawn : Draw := ⟨List.Vector.replicate 8 (Byte.ofNat 0), 0, 0⟩

end ObfLayer

end Yip.Obf
