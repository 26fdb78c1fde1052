/-
This file models the messages of the threshold authority (`rpc.rs`): the body of a certificate
to be signed, the credential that should authorise it, the messages between client, coordinator
and signers, and the check of the proof of possession.
-/

import Mathlib.Data.List.AList
import Yip.Members.Cert

namespace Yip.Ca

open Members

/-! ### FROST -/

structure SigningPackage (Commitments : Type) where
  commitments : List (Nat × Commitments)
  message : List Byte

/-- The threshold signature scheme, as an interface. -/
structure Frost where
  KeyPackage : Type
  PublicKeyPackage : Type
  Nonces : Type
  Commitments : Type
  Share : Type
  identifier : KeyPackage → Nat
  commit : KeyPackage → (seed : Nat) → Nonces × Commitments
  sign : SigningPackage Commitments → Nonces → KeyPackage → Except String Share
  knows : PublicKeyPackage → Nat → Bool
  verifyShare : PublicKeyPackage → Nat → Share → SigningPackage Commitments → Except String Unit
  aggregate : SigningPackage Commitments → (AList fun _ : Nat => Share) → PublicKeyPackage →
    Except String (Bytes 64)
  verifyingKey : PublicKeyPackage → Bytes 32

/-! ### Certificate bodies and credentials -/

structure CertTbs where
  version : Byte
  memberPubkey : Bytes 32
  memberSignPubkey : Bytes 32
  networkId : Bytes 16
  notBefore : Nat
  notAfter : Nat
  tags : List (Byte × List Byte)
  deriving DecidableEq

def CertTbs.toCanonicalBytes (tbs : CertTbs) : Option (List Byte) := do
  let tagCount ← lengthField tbs.tags.length
  let tags ← tagBytes tbs.tags
  return tbs.version :: (tbs.memberPubkey.toList ++ tbs.memberSignPubkey.toList ++
    tbs.networkId.toList ++ toBeBytes 8 tbs.notBefore ++ toBeBytes 8 tbs.notAfter ++
    tagCount ++ tags)

structure BootstrapToken where
  tokenId : Bytes 16
  allowedNodeId : Bytes 32
  assignedIpv4 : Nat
  assignedIpv6 : Bytes 16
  allowedFlags : Nat
  notAfterUnix : Nat
  adminSignature : Bytes 64
  deriving DecidableEq

inductive EnrollmentCredential where
  | bootstrapToken (token : BootstrapToken)
  | renewalCert (existingCertBytes : List Byte) (renewalSignature : Bytes 64)
  deriving DecidableEq

/-! ### Messages -/

structure SubmitEnrollmentPayload where
  challengeNonce : Bytes 32
  csrTbs : CertTbs
  credential : EnrollmentCredential
  popSignature : Bytes 64
  deriving DecidableEq

inductive ClientRpcRequest where
  | getChallenge
  | submitEnrollment (payload : SubmitEnrollmentPayload)
  deriving DecidableEq

inductive ClientRpcResponse where
  | challenge (challengeNonce : Bytes 32) (expiresAtUnix : Nat)
  | enrolled (certBytes : List Byte) (caPublicKey : Bytes 32)
  | rejected (reason : String)
  deriving DecidableEq

structure NonceSlotId where
  bootEpochId : Nat
  sequenceIdx : Nat
  deriving DecidableEq, Repr

structure SignCertRequestPayload (frost : Frost) where
  sessionId : Nat
  slotId : NonceSlotId
  signingPackage : SigningPackage frost.Commitments
  certTbs : CertTbs
  credential : EnrollmentCredential
  challengeNonce : Bytes 32
  popSignature : Bytes 64

structure SignCertResponsePayload (frost : Frost) where
  sessionId : Nat
  signerId : Nat
  signatureShare : frost.Share
  replenishCommitment : Option (NonceSlotId × frost.Commitments)

inductive QuorumRpcMessage (frost : Frost) where
  | publishCommitments (signerId bootEpochId : Nat)
      (commitments : List (NonceSlotId × frost.Commitments))
  | signCertRequest (payload : SignCertRequestPayload frost)
  | signCertResponse (payload : SignCertResponsePayload frost)
  | signCertReject (sessionId signerId : Nat) (reason : String)

inductive CaWireMessage (frost : Frost) where
  | quorum (message : QuorumRpcMessage frost)
  | clientReq (request : ClientRpcRequest)
  | clientResp (response : ClientRpcResponse)

/-! ### Proof of possession -/

def ascii (text : String) : List Byte := text.toList.map fun char => Byte.ofNat char.toNat

def enrollPopContext : List Byte := ascii "YIP-CA-ENROLL-POP-V1"

def verifyEnrollmentPop (ed : Ed25519) (popSignature : Bytes 64) (signerPubkey : Bytes 32)
    (challengeNonce : Bytes 32) (csrTbs : CertTbs) : Option (Except String Unit) :=
  if !ed.isKey signerPubkey then some (.error "invalid signer public key")
  else
    csrTbs.toCanonicalBytes.map fun body =>
      if ed.verifyStrict signerPubkey (enrollPopContext ++ challengeNonce.toList ++ body)
          popSignature then .ok ()
      else .error "invalid Proof-of-Possession signature"

end Yip.Ca
