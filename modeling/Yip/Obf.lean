/-
This file models the envelope of `yip-obf`, which makes a message look like random bytes of a
random length.
-/

import Yip.Wire
import Yip.Members.Cert

namespace Yip.Obf

open Members List Option

def nonceLen : Nat := 8

def minEnvelope : Nat := nonceLen + 3

section Envelope

variable (sip : Wire.Sip) (key : Bytes 16)

def keystream (nonce : Bytes 8) (length : Nat) : List Byte :=
  ((List.range ((length + 7) / 8)).flatMap fun counter =>
    toBeBytes 8 (sip key.toList (nonce.toList ++ toBeBytes 8 counter)).toNat).take length

def obfuscate (nonce : Bytes 8) (ptype : Byte) (body : List Byte) (padLen : Nat) :
    Option (List Byte) := do
  let bodyLen ← lengthField body.length
  let plain := ptype :: (bodyLen ++ body ++ List.replicate padLen (Byte.ofNat 0))
  return nonce.toList ++ Wire.xorInPlace plain (keystream sip key nonce plain.length)

def deobfuscate (datagram : List Byte) : Option (Byte × List Byte) :=
  if datagram.length < minEnvelope then none
  else do
    let (nonce, masked) ← takeBytes 8 datagram
    let region := Wire.xorInPlace masked (keystream sip key nonce masked.length)
    let (ptype, region) ← takeByte region
    let (bodyLen, region) ← takeUint 2 region
    let (body, _) ← takeBytes bodyLen region
    return (ptype, body.toList)

end Envelope

variable {sip : Wire.Sip} {key : Bytes 16}

@[simp]
theorem length_keystream (nonce : Bytes 8) (length : Nat) :
    (keystream sip key nonce length).length = length := by
  simp only [keystream, length_take, length_flatMap, length_toBeBytes, map_const',
    length_range, sum_replicate, smul_eq_mul]
  omega

@[simp]
theorem length_mask (nonce : Bytes 8) (region : List Byte) :
    (Wire.xorInPlace region (keystream sip key nonce region.length)).length = region.length := by
  simp [Wire.xorInPlace]

variable {body : List Byte} {ptype : Byte} {nonce : Bytes 8} {padLen : Nat} {env : List Byte}

theorem obfuscate_isSome (short : body.length < 65536) :
    (obfuscate sip key nonce ptype body padLen).isSome := by
  simp [obfuscate, lengthField, short]

theorem length_obfuscate (wrapped : obfuscate sip key nonce ptype body padLen = some env) :
    env.length = minEnvelope + body.length + padLen := by
  obtain ⟨bodyLen, measured, masked⟩ := bind_eq_some_iff.mp wrapped
  obtain ⟨-, rfl⟩ := lengthField_eq_some_iff.mp measured
  obtain rfl := some.inj masked
  rw [length_append, nonce.toList_length, length_mask, length_cons, length_append,
    length_append, length_toBeBytes, length_replicate, minEnvelope, nonceLen]
  omega

theorem deobfuscate_obfuscate (wrapped : obfuscate sip key nonce ptype body padLen = some env) :
    deobfuscate sip key env = some (ptype, body) := by
  have long : ¬ env.length < minEnvelope := by
    rw [length_obfuscate wrapped]
    omega
  obtain ⟨bodyLen, measured, masked⟩ := bind_eq_some_iff.mp wrapped
  obtain ⟨short, rfl⟩ := lengthField_eq_some_iff.mp measured
  obtain rfl := some.inj masked
  rw [deobfuscate, if_neg long]
  set plain := ptype :: (toBeBytes 2 body.length ++ body ++
    replicate padLen (Byte.ofNat 0)) with isPlain
  have unmasked : Wire.xorInPlace (Wire.xorInPlace plain (keystream sip key nonce plain.length))
      (keystream sip key nonce plain.length) = plain :=
    Wire.xorInPlace_twice _ _ (length_keystream nonce plain.length).ge
  simp only [takeBytes_append, bind_eq_bind, bind_some, length_mask, unmasked]
  rw [isPlain, append_assoc]
  simp only [takeByte, bind_some, takeUint_append 2 short, takeBytes_length_append]
  rfl

end Yip.Obf
