/-
This file models one signer of the threshold authority (`signer_daemon.rs`): its policy, the
vault of one-time nonces and the handling of a signing request.
-/

import Yip.Ca.Rpc

namespace Yip.Ca

open Members

/-- What a signer is willing to sign. -/
structure SignerPolicy where
  maxTtlSecs : Nat
  adminProvisioningPubkey : Option (Bytes 32)
  ipv4NetworkMask : Option (Nat × Nat)
  deriving DecidableEq

def SignerPolicy.default : SignerPolicy := ⟨7 * 86400, none, none⟩

/-! ### Nonces -/

/-- The nonces a signer has made and not used. -/
structure EphemeralNonceVault (frost : Frost) where
  bootEpochId : Nat
  nextGenIdx : Nat
  activeNonces : AList fun _ : NonceSlotId => frost.Nonces

namespace EphemeralNonceVault

variable {frost : Frost}

def new (bootEpochId : Nat) : EphemeralNonceVault frost := ⟨bootEpochId, 1, ∅⟩

def preprocessBatch (vault : EphemeralNonceVault frost) (keyPackage : frost.KeyPackage) :
    List Nat → Option (EphemeralNonceVault frost × List (NonceSlotId × frost.Commitments))
  | [] => some (vault, [])
  | seed :: seeds => do
    if vault.nextGenIdx + 1 < 2 ^ 64 then
      let (nonces, commitments) := frost.commit keyPackage seed
      let slot : NonceSlotId := ⟨vault.bootEpochId, vault.nextGenIdx⟩
      let (vault, others) ← preprocessBatch
        { vault with
          nextGenIdx := vault.nextGenIdx + 1
          activeNonces := vault.activeNonces.insert slot nonces } keyPackage seeds
      return (vault, (slot, commitments) :: others)
    else none

def takeOnce (vault : EphemeralNonceVault frost) (slot : NonceSlotId) :
    EphemeralNonceVault frost × Option frost.Nonces :=
  if slot.bootEpochId ≠ vault.bootEpochId then (vault, none)
  else
    ({ vault with activeNonces := vault.activeNonces.erase slot },
      vault.activeNonces.lookup slot)

end EphemeralNonceVault

/-! ### Signing requests -/

structure SignerState (frost : Frost) where
  keyPackage : frost.KeyPackage
  pubkeyPackage : frost.PublicKeyPackage
  policy : SignerPolicy
  vault : EphemeralNonceVault frost

namespace SignerState

variable {frost : Frost}

def new (keyPackage : frost.KeyPackage) (pubkeyPackage : frost.PublicKeyPackage)
    (policy : SignerPolicy) (bootEpochId : Nat) : SignerState frost :=
  ⟨keyPackage, pubkeyPackage, policy, EphemeralNonceVault.new bootEpochId⟩

def boot (keyPackage : frost.KeyPackage) (pubkeyPackage : frost.PublicKeyPackage)
    (policy : SignerPolicy) (bootEpochId : Nat) (seeds : List.Vector Nat 16) :
    Option (SignerState frost × QuorumRpcMessage frost) := do
  let signer := new keyPackage pubkeyPackage policy bootEpochId
  let (vault, commitments) ← signer.vault.preprocessBatch keyPackage seeds.toList
  return ({ signer with vault := vault },
    .publishCommitments (frost.identifier keyPackage) bootEpochId commitments)

def handleSignRequest (signer : SignerState frost) (req : SignCertRequestPayload frost)
    (seed : Nat) : Option (SignerState frost × QuorumRpcMessage frost) := do
  let signerId := frost.identifier signer.keyPackage
  let reject := fun reason => QuorumRpcMessage.signCertReject req.sessionId signerId reason
  let expectedMsg ← req.certTbs.toCanonicalBytes
  if req.signingPackage.message ≠ expectedMsg then
    return (signer, reject "SigningPackage payload mismatch with CertTbs")
  else if req.certTbs.notAfter ≤ req.certTbs.notBefore ∨
      req.certTbs.notAfter - req.certTbs.notBefore > signer.policy.maxTtlSecs then
    return (signer, reject "Certificate TTL exceeds signer policy maximum")
  else
    match signer.vault.takeOnce req.slotId with
    | (vault, none) =>
      return ({ signer with vault := vault },
        reject "NonceSlotId not found, already consumed, or stale boot epoch")
    | (vault, some nonces) =>
      let (vault, batch) ← vault.preprocessBatch signer.keyPackage [seed]
      let signer := { signer with vault := vault }
      match frost.sign req.signingPackage nonces signer.keyPackage with
      | .ok signatureShare =>
        return (signer, .signCertResponse ⟨req.sessionId, signerId, signatureShare, batch.getLast?⟩)
      | .error e => return (signer, reject ("FROST round2 sign error: " ++ e))

variable {signer : SignerState frost} {req : SignCertRequestPayload frost}

theorem handleSignRequest_share {after : SignerState frost} {seed : Nat}
    {payload : SignCertResponsePayload frost}
    (issued : signer.handleSignRequest req seed = some (after, .signCertResponse payload)) :
    req.certTbs.toCanonicalBytes = some req.signingPackage.message := by
  unfold handleSignRequest at issued
  cases body : req.certTbs.toCanonicalBytes with
  | none => simp [body] at issued
  | some expected =>
    by_cases mismatch : req.signingPackage.message = expected
    · rw [mismatch]
    · simp [body, mismatch] at issued

end SignerState

end Yip.Ca
