/-
This file models the certificate of a mesh member (`cert.rs`): the bytes the authority signs,
the encoding with the signature at the end, the strict decoder and the check of a certificate
against the authority's keys.
-/

import Yip.Crypto.Session

namespace Yip.Members

open Crypto List Option

abbrev Bytes (length : Nat) := List.Vector Byte length

structure Ed25519 where
  isKey : Bytes 32 → Bool
  verifyStrict : (key : Bytes 32) → (message : List Byte) → (signature : Bytes 64) → Bool

structure Cert where
  version : Byte
  memberPubkey : Bytes 32
  memberSignPubkey : Bytes 32
  networkId : Bytes 16
  notBefore : Nat
  notAfter : Nat
  tags : List (Byte × List Byte)
  caSig : Bytes 64
  deriving DecidableEq

/-! ### Encoding -/

def lengthField (length : Nat) : Option (List Byte) :=
  if length < 65536 then some (toBeBytes 2 length) else none

variable {length : Nat} {buf rest : List Byte}

theorem lengthField_eq_some_iff {field : List Byte} :
    lengthField length = some field ↔ length < 65536 ∧ field = toBeBytes 2 length := by
  unfold lengthField
  split
  · rename_i fits
    rw [some.injEq]
    exact ⟨fun same => ⟨fits, same.symm⟩, fun both => both.2.symm⟩
  · rename_i large
    exact ⟨nofun, fun both => absurd both.1 large⟩

theorem lengthField_of_lt (fits : length < 65536) :
    lengthField length = some (toBeBytes 2 length) := if_pos fits

def tagBytes : List (Byte × List Byte) → Option (List Byte)
  | [] => some []
  | (tag, value) :: rest => do
    let length ← lengthField value.length
    let others ← tagBytes rest
    return tag :: (length ++ value ++ others)

def certSigningBody (cert : Cert) : Option (List Byte) := do
  let tagCount ← lengthField cert.tags.length
  let tags ← tagBytes cert.tags
  return cert.version :: (cert.memberPubkey.toList ++ cert.memberSignPubkey.toList ++
    cert.networkId.toList ++ toBeBytes 8 cert.notBefore ++ toBeBytes 8 cert.notAfter ++
    tagCount ++ tags)

def Cert.encode (cert : Cert) : Option (List Byte) :=
  (certSigningBody cert).map (· ++ cert.caSig.toList)

/-! ### Decoding -/

def takeBytes (length : Nat) (buf : List Byte) : Option (Bytes length × List Byte) :=
  if bound : length ≤ buf.length then
    some (⟨buf.take length, length_take_of_le bound⟩, buf.drop length)
  else none

def takeUint (width : Nat) (buf : List Byte) : Option (Nat × List Byte) :=
  (takeBytes width buf).map fun (bytes, rest) => (ofBeBytes bytes.toList, rest)

def takeByte : List Byte → Option (Byte × List Byte)
  | [] => none
  | byte :: rest => some (byte, rest)

def takeTags : Nat → List Byte → Option (List (Byte × List Byte) × List Byte)
  | 0, buf => some ([], buf)
  | count + 1, buf => do
    let (tag, buf) ← takeByte buf
    let (length, buf) ← takeUint 2 buf
    let (value, buf) ← takeBytes length buf
    let (tags, buf) ← takeTags count buf
    return ((tag, value.toList) :: tags, buf)

def Cert.decode (buf : List Byte) : Option Cert := do
  let (version, buf) ← takeByte buf
  let (memberPubkey, buf) ← takeBytes 32 buf
  let (memberSignPubkey, buf) ← takeBytes 32 buf
  let (networkId, buf) ← takeBytes 16 buf
  let (notBefore, buf) ← takeUint 8 buf
  let (notAfter, buf) ← takeUint 8 buf
  let (tagCount, buf) ← takeUint 2 buf
  let (tags, buf) ← takeTags tagCount buf
  let (caSig, buf) ← takeBytes 64 buf
  if buf = [] then
    return ⟨version, memberPubkey, memberSignPubkey, networkId, notBefore, notAfter, tags, caSig⟩
  else none

/-! ### Reading undoes writing -/

theorem takeBytes_eq_some_iff {bytes : Bytes length} :
    takeBytes length buf = some (bytes, rest) ↔ buf = bytes.toList ++ rest := by
  unfold takeBytes
  constructor
  · intro taken
    split at taken
    · obtain ⟨rfl, rfl⟩ := Prod.mk.inj (some.inj taken)
      exact (take_append_drop length buf).symm
    · cases taken
  · rintro rfl
    have width := bytes.toList_length
    rw [dif_pos (by rw [length_append]; omega)]
    congr 2
    · exact Subtype.ext (take_left' width)
    · exact drop_left' width

theorem takeUint_eq_some_iff {width value : Nat} :
    takeUint width buf = some (value, rest) ↔
      value < 256 ^ width ∧ buf = toBeBytes width value ++ rest := by
  unfold takeUint
  rw [map_eq_some_iff]
  constructor
  · rintro ⟨⟨bytes, after⟩, taken, same⟩
    obtain ⟨rfl, rfl⟩ := Prod.mk.inj same
    have read := takeBytes_eq_some_iff.mp taken
    have below := ofBeBytes_lt bytes.toList
    have written := toBeBytes_ofBeBytes bytes.toList
    rw [bytes.toList_length] at below written
    exact ⟨below, by rw [written]; exact read⟩
  · rintro ⟨below, rfl⟩
    let bytes : Bytes width := ⟨toBeBytes width value, length_toBeBytes width value⟩
    refine ⟨(bytes, rest), takeBytes_eq_some_iff.mpr rfl, ?_⟩
    change (ofBeBytes (toBeBytes width value), rest) = (value, rest)
    rw [ofBeBytes_toBeBytes, Nat.mod_eq_of_lt below]

variable {cert : Cert} (bytes : Bytes length)

theorem takeBytes_append (rest : List Byte) :
    takeBytes length (bytes.toList ++ rest) = some (bytes, rest) :=
  takeBytes_eq_some_iff.mpr rfl

theorem takeBytes_toList : takeBytes length bytes.toList = some (bytes, []) :=
  takeBytes_eq_some_iff.mpr (append_nil _).symm

theorem takeBytes_length_append (bytes rest : List Byte) :
    takeBytes bytes.length (bytes ++ rest) = some (⟨bytes, rfl⟩, rest) :=
  takeBytes_eq_some_iff.mpr rfl

theorem takeUint_append (width : Nat) {value : Nat} (low : value < 256 ^ width)
    (rest : List Byte) : takeUint width (toBeBytes width value ++ rest) = some (value, rest) :=
  takeUint_eq_some_iff.mpr ⟨low, rfl⟩

theorem takeByte_eq_some_iff {byte : Byte} :
    takeByte buf = some (byte, rest) ↔ buf = byte :: rest := by
  cases buf with
  | nil => simp [takeByte]
  | cons head tail => simp [takeByte]

theorem takeTags_eq_some_iff {count : Nat} {tags : List (Byte × List Byte)} :
    takeTags count buf = some (tags, rest) ↔
      tags.length = count ∧ ∃ bytes, tagBytes tags = some bytes ∧ buf = bytes ++ rest := by
  induction count generalizing buf rest tags with
  | zero =>
    constructor
    · intro taken
      obtain ⟨rfl, rfl⟩ := Prod.mk.inj (some.inj taken)
      exact ⟨rfl, [], rfl, rfl⟩
    · rintro ⟨empty, bytes, written, rfl⟩
      rw [length_eq_zero_iff.mp empty] at written ⊢
      obtain rfl := some.inj written
      rfl
  | succ count ih =>
    simp only [takeTags, bind_eq_bind, bind_eq_some_iff, Prod.exists, takeByte_eq_some_iff,
      takeUint_eq_some_iff, takeBytes_eq_some_iff, ih, Option.pure_def, some.injEq,
      Prod.mk.injEq]
    constructor
    · rintro ⟨tag, _, rfl, length, _, ⟨fits, rfl⟩, value, _, rfl, others, _,
        ⟨rfl, bytes, written, rfl⟩, rfl, rfl⟩
      refine ⟨rfl, tag :: (toBeBytes 2 length ++ value.toList ++ bytes), ?_, ?_⟩
      · simp [tagBytes, lengthField_of_lt fits, written]
      · simp only [cons_append, append_assoc]
    · rintro ⟨length, bytes, written, rfl⟩
      cases tags with
      | nil => cases length
      | cons head others =>
        obtain ⟨field, sized, after, isAfter, rfl⟩ := by
          simpa only [tagBytes, bind_eq_bind, bind_eq_some_iff, Option.pure_def, some.injEq]
            using written
        obtain ⟨fits, rfl⟩ := lengthField_eq_some_iff.mp sized
        simp only [cons_append, append_assoc]
        exact ⟨_, _, rfl, _, _, ⟨fits, rfl⟩, ⟨head.2, rfl⟩, _, rfl, others, _,
          ⟨Nat.succ.inj length, after, isAfter, rfl⟩, rfl, rfl⟩

theorem certSigningBody_eq_some_iff {body : List Byte} :
    certSigningBody cert = some body ↔ cert.tags.length < 65536 ∧ ∃ tags ∈ tagBytes cert.tags,
      cert.version :: (cert.memberPubkey.toList ++ cert.memberSignPubkey.toList ++
        cert.networkId.toList ++ toBeBytes 8 cert.notBefore ++ toBeBytes 8 cert.notAfter ++
        toBeBytes 2 cert.tags.length ++ tags) = body := by
  simp [certSigningBody, bind_eq_some_iff, lengthField_eq_some_iff, and_assoc]

theorem Cert.decode_eq_some_iff :
    Cert.decode buf = some cert ↔
      (cert.notBefore < 256 ^ 8 ∧ cert.notAfter < 256 ^ 8) ∧ cert.encode = some buf := by
  simp only [Cert.decode, bind_eq_bind, bind_eq_some_iff, Prod.exists, takeByte_eq_some_iff,
    takeBytes_eq_some_iff, takeUint_eq_some_iff, takeTags_eq_some_iff, ite_none_right_eq_some,
    Option.pure_def, some.injEq]
  constructor
  · rintro ⟨version, _, rfl, memberPubkey, _, rfl, memberSignPubkey, _, rfl, networkId, _, rfl,
      notBefore, _, ⟨early, rfl⟩, notAfter, _, ⟨late, rfl⟩, _, _, ⟨fits, rfl⟩, tags, _,
      ⟨rfl, bytes, written, rfl⟩, caSig, _, rfl, rfl, rfl⟩
    refine ⟨⟨early, late⟩, ?_⟩
    simp [Cert.encode, certSigningBody, lengthField_of_lt fits, written]
  · rintro ⟨⟨early, late⟩, encoded⟩
    obtain ⟨body, signed, rfl⟩ := map_eq_some_iff.mp encoded
    obtain ⟨fits, bytes, written, rfl⟩ := certSigningBody_eq_some_iff.mp signed
    simp only [cons_append, append_assoc]
    exact ⟨_, _, rfl, _, _, rfl, _, _, rfl, _, _, rfl, _, _, ⟨early, rfl⟩, _, _, ⟨late, rfl⟩, _, _,
      ⟨fits, rfl⟩, _, _, ⟨rfl, bytes, written, rfl⟩, _, _, (append_nil _).symm, rfl, rfl⟩

/-! ### Verification -/

inductive CertError where
  | badSig
  | expired
  | notYetValid
  | wrongNetwork
  | wrongMember
  deriving DecidableEq, Repr

def verifyAny (ed : Ed25519) (body : List Byte) (signature : Bytes 64)
    (caPubkeys : List (Bytes 32)) : Bool :=
  caPubkeys.any fun key => ed.isKey key && ed.verifyStrict key body signature

/-- Checks a certificate in the source's order; `none` stands for a panic. -/
def verifyCert (ed : Ed25519) (cert : Cert) (caPubkeys : List (Bytes 32)) (networkId : Bytes 16)
    (memberPubkey : Bytes 32) (now skew : Nat) : Option (Except CertError Unit) :=
  (certSigningBody cert).map fun body =>
    if ¬verifyAny ed body cert.caSig caPubkeys then .error .badSig
    else if cert.memberPubkey ≠ memberPubkey then .error .wrongMember
    else if cert.networkId ≠ networkId then .error .wrongNetwork
    else if saturatingAdd now skew < cert.notBefore then .error .notYetValid
    else if saturatingAdd cert.notAfter skew ≤ now then .error .expired
    else .ok ()

def Cert.SignedUnder (ed : Ed25519) (cert : Cert) (caPubkeys : List (Bytes 32)) : Prop :=
  ∃ body ∈ certSigningBody cert, verifyAny ed body cert.caSig caPubkeys

instance (ed : Ed25519) (cert : Cert) (caPubkeys : List (Bytes 32)) :
    Decidable (cert.SignedUnder ed caPubkeys) :=
  inferInstanceAs (Decidable (∃ body ∈ certSigningBody cert, _))

/-- The certificate is for this member and network at this time. -/
structure Cert.Covers (cert : Cert) (networkId : Bytes 16) (memberPubkey : Bytes 32)
    (now skew : Nat) : Prop where
  member : cert.memberPubkey = memberPubkey
  network : cert.networkId = networkId
  begun : cert.notBefore ≤ saturatingAdd now skew
  lasts : now < saturatingAdd cert.notAfter skew

theorem ite_error_eq_ok_iff {Error Value : Type} {condition : Prop} [Decidable condition]
    {err : Error} {rest : Except Error Value} {value : Value} :
    (if condition then .error err else rest) = .ok value ↔ ¬condition ∧ rest = .ok value := by
  split <;> simp [*]

theorem verifyCert_eq_ok_iff {ed : Ed25519} {cert : Cert} {caPubkeys : List (Bytes 32)}
    {networkId : Bytes 16} {memberPubkey : Bytes 32} {now skew : Nat} :
    verifyCert ed cert caPubkeys networkId memberPubkey now skew = some (.ok ()) ↔
      cert.SignedUnder ed caPubkeys ∧ cert.Covers networkId memberPubkey now skew := by
  simp only [verifyCert, map_eq_some_iff, ite_error_eq_ok_iff, not_not, not_lt, not_le,
    and_true]
  constructor
  · rintro ⟨body, signed, verified, member, network, begun, lasts⟩
    exact ⟨⟨body, signed, verified⟩, member, network, begun, lasts⟩
  · rintro ⟨⟨body, signed, verified⟩, member, network, begun, lasts⟩
    exact ⟨body, signed, verified, member, network, begun, lasts⟩

end Yip.Members
