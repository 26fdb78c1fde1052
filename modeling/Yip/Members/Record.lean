/-
This file models the identifiers of a member (`ids.rs`) and its directory record (`record.rs`):
the certificate, the current endpoints and a sequence number, signed with the key the
certificate names for that.
-/

import Yip.Members.RootSet

namespace Yip.Members

open Option

/-- The primitives of certificates and records. -/
structure Suite where
  ed : Ed25519
  sign : (priv : Bytes 32) → (body : List Byte) → Bytes 64
  blake2s : (length : Nat) → (input : List Byte) → Bytes length

/-! ### Identifiers -/

abbrev NodeId := Bytes 16

def asciiBytes (text : String) : List Byte := text.toList.map fun char => Byte.ofNat char.toNat

def nodeId (suite : Suite) (pubkey : Bytes 32) : NodeId :=
  suite.blake2s 16 (asciiBytes "yip-rdv-v1" ++ pubkey.toList)

def nodeAddr (suite : Suite) (pubkey : Bytes 32) : Bytes 16 :=
  Byte.ofNat 0xfd ::ᵥ suite.blake2s 15 (asciiBytes "yip-addr-v1" ++ pubkey.toList)

/-! ### The record -/

structure Record where
  nodeId : NodeId
  cert : Cert
  endpoints : List SocketAddr
  seq : Nat
  sig : Bytes 64
  deriving DecidableEq

def endpointBytes : List SocketAddr → List Byte
  | [] => []
  | addr :: rest => putAddr addr ++ endpointBytes rest

def recordSigningBody (record : Record) : Option (List Byte) := do
  let cert ← record.cert.encode
  let certLen ← lengthField cert.length
  let count ← lengthField record.endpoints.length
  return record.nodeId.toList ++ certLen ++ cert ++ count ++ endpointBytes record.endpoints ++
    toBeBytes 8 record.seq

def Record.encode (record : Record) : Option (List Byte) :=
  (recordSigningBody record).map (· ++ record.sig.toList)

def takeEndpoints : Nat → List Byte → Option (List SocketAddr × List Byte)
  | 0, buf => some ([], buf)
  | count + 1, buf => do
    let (addr, buf) ← takeAddr buf
    let (endpoints, buf) ← takeEndpoints count buf
    return (addr :: endpoints, buf)

def Record.decode (buf : List Byte) : Option Record := do
  let (nodeId, buf) ← takeBytes 16 buf
  let (certLen, buf) ← takeUint 2 buf
  let (certBytes, buf) ← takeBytes certLen buf
  let cert ← Cert.decode certBytes.toList
  let (count, buf) ← takeUint 2 buf
  let (endpoints, buf) ← takeEndpoints count buf
  let (seq, buf) ← takeUint 8 buf
  let (sig, buf) ← takeBytes 64 buf
  if buf = [] then return ⟨nodeId, cert, endpoints, seq, sig⟩ else none

def buildSignedRecord (suite : Suite) (cert : Cert) (endpoints : List SocketAddr) (seq : Nat)
    (signPriv : Bytes 32) : Option Record :=
  let unsigned : Record :=
    ⟨Members.nodeId suite cert.memberPubkey, cert, endpoints, seq, List.Vector.replicate 64 0⟩
  (recordSigningBody unsigned).map fun body => { unsigned with sig := suite.sign signPriv body }

/-- Checks the certificate, the node and the signature. -/
def Record.verify (suite : Suite) (record : Record) (caPubkeys : List (Bytes 32))
    (networkId : Bytes 16) (now skew : Nat) : Option (Except CertError Unit) :=
  match verifyCert suite.ed record.cert caPubkeys networkId record.cert.memberPubkey now skew with
  | none => none
  | some (.error err) => some (.error err)
  | some (.ok ()) =>
    if ¬suite.ed.isKey record.cert.memberSignPubkey then some (.error .badSig)
    else (recordSigningBody record).map fun body =>
      if ¬suite.ed.verifyStrict record.cert.memberSignPubkey body record.sig then .error .badSig
      else if record.nodeId ≠ Members.nodeId suite record.cert.memberPubkey then
        .error .wrongMember
      else .ok ()

/-! ### Reading undoes writing -/

theorem takeEndpoints_eq_some_iff {count : Nat} {buf rest : List Byte}
    {endpoints : List SocketAddr} :
    takeEndpoints count buf = some (endpoints, rest) ↔
      endpoints.length = count ∧ buf = endpointBytes endpoints ++ rest := by
  induction count generalizing buf rest endpoints with
  | zero =>
    constructor
    · intro taken
      obtain ⟨rfl, rfl⟩ := Prod.mk.inj (some.inj taken)
      exact ⟨rfl, rfl⟩
    · rintro ⟨empty, rfl⟩
      rw [List.length_eq_zero_iff.mp empty]
      rfl
  | succ count ih =>
    simp only [takeEndpoints, bind_eq_bind, bind_eq_some_iff, Prod.exists, takeAddr_eq_some_iff, ih,
      pure_def, some.injEq, Prod.mk.injEq]
    constructor
    · rintro ⟨addr, _, rfl, others, _, ⟨rfl, rfl⟩, rfl, rfl⟩
      exact ⟨rfl, by simp only [endpointBytes, List.append_assoc]⟩
    · rintro ⟨length, rfl⟩
      cases endpoints with
      | nil => cases length
      | cons addr others =>
        simp only [endpointBytes, List.append_assoc]
        exact ⟨_, _, rfl, _, _, ⟨Nat.succ.inj length, rfl⟩, rfl, rfl⟩

structure Record.Sized (record : Record) : Prop where
  notBefore : record.cert.notBefore < 256 ^ 8
  notAfter : record.cert.notAfter < 256 ^ 8
  seq : record.seq < 256 ^ 8

variable {record : Record}

theorem recordSigningBody_eq_some_iff {body : List Byte} :
    recordSigningBody record = some body ↔ ∃ cert ∈ record.cert.encode, cert.length < 65536 ∧
      record.endpoints.length < 65536 ∧
      record.nodeId.toList ++ toBeBytes 2 cert.length ++ cert ++
        toBeBytes 2 record.endpoints.length ++ endpointBytes record.endpoints ++
        toBeBytes 8 record.seq = body := by
  simp [recordSigningBody, bind_eq_some_iff, lengthField_eq_some_iff, and_assoc]

theorem Record.decode_eq_some_iff {buf : List Byte} :
    Record.decode buf = some record ↔ record.Sized ∧ record.encode = some buf := by
  simp only [Record.decode, bind_eq_bind, bind_eq_some_iff, Prod.exists, takeUint_eq_some_iff,
    takeBytes_eq_some_iff, Cert.decode_eq_some_iff, takeEndpoints_eq_some_iff,
    ite_none_right_eq_some, pure_def, some.injEq]
  constructor
  · rintro ⟨nodeId, _, rfl, _, _, ⟨short, rfl⟩, certBytes, _, rfl, cert, ⟨⟨early, late⟩, encoded⟩,
      _, _, ⟨few, rfl⟩, endpoints, _, ⟨rfl, rfl⟩, seq, _, ⟨low, rfl⟩, sig, _, rfl, rfl, rfl⟩
    refine ⟨⟨early, late, low⟩, ?_⟩
    simp [Record.encode, recordSigningBody, encoded, lengthField_of_lt short,
      lengthField_of_lt few]
  · rintro ⟨sized, encoded⟩
    obtain ⟨body, signed, rfl⟩ := map_eq_some_iff.mp encoded
    obtain ⟨cert, certified, short, few, rfl⟩ := recordSigningBody_eq_some_iff.mp signed
    simp only [List.append_assoc]
    exact ⟨_, _, rfl, _, _, ⟨short, rfl⟩, ⟨cert, rfl⟩, _, rfl, _,
      ⟨⟨sized.notBefore, sized.notAfter⟩, certified⟩, _, _, ⟨few, rfl⟩, _, _, ⟨rfl, rfl⟩, _, _,
      ⟨sized.seq, rfl⟩, _, _, (List.append_nil _).symm, rfl, rfl⟩

/-! ### Signing and checking -/

structure Record.SignedBy (suite : Suite) (record : Record) (signPriv : Bytes 32) : Prop where
  nodeId : record.nodeId = Members.nodeId suite record.cert.memberPubkey
  sig : ∃ body, recordSigningBody record = some body ∧ record.sig = suite.sign signPriv body

theorem buildSignedRecord_eq_some {suite : Suite} {cert : Cert} {endpoints : List SocketAddr}
    {seq : Nat} {signPriv : Bytes 32}
    (built : buildSignedRecord suite cert endpoints seq signPriv = some record) :
    record.cert = cert ∧ record.endpoints = endpoints ∧ record.seq = seq ∧
      record.SignedBy suite signPriv := by
  obtain ⟨body, signed, rfl⟩ := map_eq_some_iff.mp built
  exact ⟨rfl, rfl, rfl, rfl, body, signed, rfl⟩

theorem Record.verify_eq_ok_iff {suite : Suite} {caPubkeys : List (Bytes 32)} {networkId : Bytes 16}
    {now skew : Nat} :
    record.verify suite caPubkeys networkId now skew = some (.ok ()) ↔
      verifyCert suite.ed record.cert caPubkeys networkId record.cert.memberPubkey now skew =
        some (.ok ()) ∧
      suite.ed.isKey record.cert.memberSignPubkey ∧
      (∃ body, recordSigningBody record = some body ∧
        suite.ed.verifyStrict record.cert.memberSignPubkey body record.sig) ∧
      record.nodeId = Members.nodeId suite record.cert.memberPubkey := by
  unfold Record.verify
  constructor
  · intro passed
    split at passed
    · cases passed
    · cases passed
    · rename_i certified
      split at passed
      · cases passed
      · rename_i isKey
        simp only [map_eq_some_iff, ite_error_eq_ok_iff, not_not, and_true] at passed
        obtain ⟨body, signed, verified, bound⟩ := passed
        exact ⟨certified, not_not.mp isKey, ⟨body, signed, verified⟩, bound⟩
  · rintro ⟨certified, isKey, ⟨body, signed, verified⟩, bound⟩
    rw [certified]
    rw [if_neg (not_not.mpr isKey), signed, map_some, if_neg (not_not.mpr verified),
      if_neg (not_not.mpr bound)]

end Yip.Members
