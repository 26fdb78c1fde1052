/-
This file follows the one-time nonces of a signer through any sequence of batches and requests.
-/

import Yip.Ca.Signer
import Yip.Lib.Assoc

namespace Yip.Ca

open Members List Option

variable {frost : Frost}

namespace EphemeralNonceVault

def generate (keyPackage : frost.KeyPackage) (vault : EphemeralNonceVault frost) (seed : Nat) :
    EphemeralNonceVault frost :=
  ((vault.preprocessBatch keyPackage [seed]).map Prod.fst).getD vault

theorem generate_eq (keyPackage : frost.KeyPackage) (vault : EphemeralNonceVault frost)
    (seed : Nat) : vault.generate keyPackage seed =
      if vault.nextGenIdx + 1 < 2 ^ 64 then
        { vault with
          nextGenIdx := vault.nextGenIdx + 1
          activeNonces := vault.activeNonces.insert ⟨vault.bootEpochId, vault.nextGenIdx⟩
            (frost.commit keyPackage seed).1 }
      else vault := by
  unfold generate preprocessBatch
  split <;> rfl

theorem preprocessBatch_generates {keyPackage : frost.KeyPackage} {seeds : List Nat}
    {vault after : EphemeralNonceVault frost} {batch : List (NonceSlotId × frost.Commitments)}
    (made : vault.preprocessBatch keyPackage seeds = some (after, batch)) :
    after = seeds.foldl (generate keyPackage) vault := by
  induction seeds generalizing vault batch with
  | nil =>
    cases made
    rfl
  | cons seed seeds ih =>
    unfold preprocessBatch at made
    split at made
    · rename_i room
      obtain ⟨⟨later, others⟩, rest, same⟩ := bind_eq_some_iff.mp made
      cases same
      rw [foldl_cons, generate_eq, if_pos room]
      exact ih rest
    · cases made

variable {vault : EphemeralNonceVault frost} {slot : NonceSlotId} {nonces : frost.Nonces}

theorem takeOnce_of_none (nothing : (vault.takeOnce slot).2 = none) :
    vault.takeOnce slot = (vault, none) := by
  unfold takeOnce at nothing ⊢
  split
  · rfl
  · rename_i own
    rw [if_neg own] at nothing
    rw [Assoc.erase_of_absent nothing, show vault.activeNonces.lookup slot = none from nothing]

theorem takeOnce_of_some (taken : (vault.takeOnce slot).2 = some nonces) :
    vault.takeOnce slot =
        ({ vault with activeNonces := vault.activeNonces.erase slot }, some nonces) ∧
      vault.activeNonces.lookup slot = some nonces := by
  unfold takeOnce at taken ⊢
  split at taken
  · cases taken
  · rename_i own
    rw [if_neg own]
    exact ⟨by rw [← taken], taken⟩

end EphemeralNonceVault

namespace SignerState

def passedToSign (signer : SignerState frost) (req : SignCertRequestPayload frost) :
    Option frost.Nonces :=
  if req.certTbs.toCanonicalBytes = some req.signingPackage.message ∧
      ¬(req.certTbs.notAfter ≤ req.certTbs.notBefore ∨
        req.certTbs.notAfter - req.certTbs.notBefore > signer.policy.maxTtlSecs) then
    (signer.vault.takeOnce req.slotId).2
  else none

variable {signer : SignerState frost} {req : SignCertRequestPayload frost} {seed : Nat}

theorem handleSignRequest_of_none (nothing : signer.passedToSign req = none) :
    ∃ reason, signer.handleSignRequest req seed = req.certTbs.toCanonicalBytes.map fun _ =>
      (signer, .signCertReject req.sessionId (frost.identifier signer.keyPackage) reason) := by
  unfold passedToSign at nothing
  unfold handleSignRequest
  cases body : req.certTbs.toCanonicalBytes with
  | none => exact ⟨"", rfl⟩
  | some expected =>
    dsimp only [bind_eq_bind, bind_some, map_some]
    split
    · exact ⟨_, rfl⟩
    · rename_i same
      split
      · exact ⟨_, rfl⟩
      · rename_i within
        rw [if_pos ⟨by rw [body, not_not.mp same], within⟩] at nothing
        rw [EphemeralNonceVault.takeOnce_of_none nothing]
        exact ⟨_, rfl⟩

variable {nonces : frost.Nonces} (passed : signer.passedToSign req = some nonces)

include passed

theorem of_passedToSign :
    req.certTbs.toCanonicalBytes = some req.signingPackage.message ∧
      ¬(req.certTbs.notAfter ≤ req.certTbs.notBefore ∨
        req.certTbs.notAfter - req.certTbs.notBefore > signer.policy.maxTtlSecs) ∧
      signer.vault.takeOnce req.slotId =
        ({ signer.vault with activeNonces := signer.vault.activeNonces.erase req.slotId },
          some nonces) ∧
      signer.vault.activeNonces.lookup req.slotId = some nonces := by
  unfold passedToSign at passed
  split at passed
  · rename_i allowed
    exact ⟨allowed.1, allowed.2, EphemeralNonceVault.takeOnce_of_some passed⟩
  · cases passed

theorem handleSignRequest_of_some {after : SignerState frost} {response : QuorumRpcMessage frost}
    (handled : signer.handleSignRequest req seed = some (after, response)) :
    after = { signer with
        vault := { signer.vault with
          activeNonces := signer.vault.activeNonces.erase req.slotId }.generate
            signer.keyPackage seed } ∧
      ∀ payload, response = .signCertResponse payload →
        frost.sign req.signingPackage nonces signer.keyPackage = .ok payload.signatureShare := by
  obtain ⟨body, within, taken, -⟩ := of_passedToSign passed
  unfold handleSignRequest at handled
  rw [body] at handled
  dsimp only [bind_eq_bind, bind_some] at handled
  rw [if_neg (not_not.mpr rfl), if_neg within, taken] at handled
  obtain ⟨⟨vault, batch⟩, made, answered⟩ := bind_eq_some_iff.mp handled
  cases EphemeralNonceVault.preprocessBatch_generates made
  split at answered
  · rename_i share signed
    cases answered
    refine ⟨rfl, ?_⟩
    rintro _ ⟨⟩
    exact signed
  · cases answered
    exact ⟨rfl, nofun⟩

end SignerState

/-! ### Whole runs -/

inductive NonceEvent (frost : Frost) where
  | preprocess (seeds : List Nat)
  | request (req : SignCertRequestPayload frost) (seed : Nat)

structure NonceLedger (frost : Frost) where
  signer : SignerState frost
  made : List (NonceSlotId × frost.Nonces)
  signed : List (NonceSlotId × frost.Nonces)

namespace NonceLedger

def generate (ledger : NonceLedger frost) (seed : Nat) : NonceLedger frost :=
  let signer := ledger.signer
  { ledger with
    signer := { signer with vault := signer.vault.generate signer.keyPackage seed }
    made :=
      if signer.vault.nextGenIdx + 1 < 2 ^ 64 then
        ledger.made ++ [(⟨signer.vault.bootEpochId, signer.vault.nextGenIdx⟩,
          (frost.commit signer.keyPackage seed).1)]
      else ledger.made }

def pass (ledger : NonceLedger frost) (slot : NonceSlotId) (nonces : frost.Nonces) :
    NonceLedger frost :=
  { ledger with
    signer := { ledger.signer with
      vault := { ledger.signer.vault with
        activeNonces := ledger.signer.vault.activeNonces.erase slot } }
    signed := ledger.signed ++ [(slot, nonces)] }

def step (ledger : NonceLedger frost) : NonceEvent frost → NonceLedger frost
  | .preprocess seeds => seeds.foldl generate ledger
  | .request req seed =>
    match ledger.signer.passedToSign req with
    | none => ledger
    | some nonces => (ledger.pass req.slotId nonces).generate seed

def held (ledger : NonceLedger frost) : List (NonceSlotId × frost.Nonces) :=
  ledger.signer.vault.activeNonces.entries.map fun entry => (entry.1, entry.2)

structure Sound (boot : Nat) (ledger : NonceLedger frost) : Prop where
  epoch : ledger.signer.vault.bootEpochId = boot
  distinct : (ledger.made.map Prod.fst).Nodup
  below : ∀ entry ∈ ledger.made,
    entry.1.bootEpochId = boot ∧ entry.1.sequenceIdx < ledger.signer.vault.nextGenIdx
  accounted : (ledger.signed ++ ledger.held).Perm ledger.made

variable {boot : Nat} {ledger : NonceLedger frost}

theorem Sound.generate (sound : ledger.Sound boot) (seed : Nat) :
    (ledger.generate seed).Sound boot := by
  rw [NonceLedger.generate, EphemeralNonceVault.generate_eq]
  by_cases room : ledger.signer.vault.nextGenIdx + 1 < 2 ^ 64
  · simp only [if_pos room]
    have fresh : ∀ entry ∈ ledger.made, entry.1 ≠
        ⟨ledger.signer.vault.bootEpochId, ledger.signer.vault.nextGenIdx⟩ :=
      fun entry member same => Nat.ne_of_lt (sound.below entry member).2
        (congrArg NonceSlotId.sequenceIdx same)
    have absent : (⟨ledger.signer.vault.bootEpochId, ledger.signer.vault.nextGenIdx⟩ :
        NonceSlotId) ∉ ledger.signer.vault.activeNonces := by
      intro member
      obtain ⟨nonces, found⟩ := isSome_iff_exists.mp (AList.lookup_isSome.mpr member)
      exact fresh _ (sound.accounted.mem_iff.mp (mem_append_right _
        (mem_map_of_mem (AList.mem_lookup_iff.mp found)))) rfl
    refine ⟨sound.epoch, ?_, ?_, ?_⟩
    · rw [map_append, nodup_append]
      refine ⟨sound.distinct, nodup_singleton _, ?_⟩
      intro slot member other new same
      obtain ⟨entry, known, rfl⟩ := mem_map.mp member
      exact fresh entry known (same.trans (mem_singleton.mp new))
    · exact forall_mem_append.mpr
        ⟨fun entry old => (sound.below entry old).imp_right Nat.lt_succ_of_lt,
          forall_mem_singleton.mpr ⟨sound.epoch, Nat.lt_succ_self _⟩⟩
    · rw [held, AList.entries_insert_of_notMem absent, map_cons]
      exact perm_middle.trans
        ((sound.accounted.cons _).trans (perm_append_singleton _ _).symm)
  · simp only [if_neg room]
    exact { sound with }

theorem Sound.pass (sound : ledger.Sound boot) {slot : NonceSlotId} {nonces : frost.Nonces}
    (found : ledger.signer.vault.activeNonces.lookup slot = some nonces) :
    (ledger.pass slot nonces).Sound boot := by
  refine ⟨sound.epoch, sound.distinct, sound.below, .trans ?_ sound.accounted⟩
  show (ledger.signed ++ [(slot, nonces)] ++ _).Perm _
  rw [append_assoc]
  exact ((Assoc.perm_erase found).map fun entry => (entry.1, entry.2)).symm.append_left _

theorem Sound.step (sound : ledger.Sound boot) (event : NonceEvent frost) :
    (ledger.step event).Sound boot := by
  cases event with
  | preprocess seeds =>
    exact seeds.foldlRecOn _ sound fun _ sound seed _ => sound.generate seed
  | request req seed =>
    rw [NonceLedger.step]
    split
    · exact sound
    · rename_i nonces passed
      exact (sound.pass (SignerState.of_passedToSign passed).2.2.2).generate seed

theorem step_request {req : SignCertRequestPayload frost} {seed : Nat} {after : SignerState frost}
    {response : QuorumRpcMessage frost}
    (handled : ledger.signer.handleSignRequest req seed = some (after, response)) :
    (ledger.step (.request req seed)).signer = after ∧
      ∀ payload, response = .signCertResponse payload →
        ∃ nonces, (req.slotId, nonces) ∈ (ledger.step (.request req seed)).signed ∧
          frost.sign req.signingPackage nonces ledger.signer.keyPackage =
            .ok payload.signatureShare := by
  rw [step]
  split
  · rename_i nothing
    obtain ⟨reason, rejected⟩ := SignerState.handleSignRequest_of_none nothing
    rw [rejected] at handled
    obtain ⟨_, -, same⟩ := map_eq_some_iff.mp handled
    obtain ⟨rfl, rfl⟩ := Prod.mk.inj same
    exact ⟨rfl, nofun⟩
  · rename_i nonces passed
    obtain ⟨rfl, signs⟩ := SignerState.handleSignRequest_of_some passed handled
    exact ⟨rfl, fun payload isShare => ⟨nonces, mem_append_right _ mem_cons_self,
      signs payload isShare⟩⟩

theorem step_preprocess {seeds : List Nat} {vault : EphemeralNonceVault frost}
    {batch : List (NonceSlotId × frost.Commitments)}
    (made : ledger.signer.vault.preprocessBatch ledger.signer.keyPackage seeds =
      some (vault, batch)) :
    (ledger.step (.preprocess seeds)).signer = { ledger.signer with vault := vault } := by
  rw [EphemeralNonceVault.preprocessBatch_generates made, step]
  clear made
  induction seeds generalizing ledger with
  | nil => rfl
  | cons seed seeds ih => exact ih

/-- In any run of batches and requests the slots of the nonces are distinct, and no nonce pair is
passed on to signing more often than it was made. The ledger follows the signer and has the nonces
of every share, and a request that is refused for its message or by the policy changes nothing. -/
theorem nonces_used_once (keyPackage : frost.KeyPackage) (pubkeyPackage : frost.PublicKeyPackage)
    (policy : SignerPolicy) (boot : Nat) (events : List (NonceEvent frost)) :
    let ledger := Machine.run step
      ⟨SignerState.new keyPackage pubkeyPackage policy boot, [], []⟩ events
    (ledger.made.map Prod.fst).Nodup ∧ (∀ entry ∈ ledger.made, entry.1.bootEpochId = boot) ∧
      ledger.signed.Subperm ledger.made ∧ (ledger.signed.map Prod.fst).Nodup ∧
      (∀ seeds vault batch, ledger.signer.vault.preprocessBatch ledger.signer.keyPackage seeds =
        some (vault, batch) →
          (ledger.step (.preprocess seeds)).signer = { ledger.signer with vault := vault }) ∧
      ∀ req seed after response,
        ledger.signer.handleSignRequest req seed = some (after, response) →
          (ledger.step (.request req seed)).signer = after ∧
            (∀ payload, response = .signCertResponse payload →
              ∃ nonces, (req.slotId, nonces) ∈ (ledger.step (.request req seed)).signed ∧
                frost.sign req.signingPackage nonces ledger.signer.keyPackage =
                  .ok payload.signatureShare) ∧
            (req.certTbs.toCanonicalBytes ≠ some req.signingPackage.message ∨
                req.certTbs.notAfter ≤ req.certTbs.notBefore ∨
                req.certTbs.notAfter - req.certTbs.notBefore > ledger.signer.policy.maxTtlSecs →
              after = ledger.signer) := by
  intro ledger
  have sound : ledger.Sound boot :=
    Machine.run_invariant step (fun _ _ => True) (Sound boot)
      (fun _ event sound _ => sound.step event) _ events
      ⟨rfl, nodup_nil, by simp, .refl _⟩
      (Machine.admissible_of_forall _ _ _ _ fun _ _ => trivial)
  have used : ledger.signed.Subperm ledger.made :=
    (sublist_append_left _ _).subperm.trans sound.accounted.subperm
  refine ⟨sound.distinct, fun entry member => (sound.below entry member).1, used, ?_,
    fun _ _ _ => step_preprocess, fun req seed after response handled =>
      ⟨(step_request handled).1, (step_request handled).2, ?_⟩⟩
  · have listed := sound.accounted.map Prod.fst
    rw [map_append] at listed
    exact (nodup_append.mp (listed.nodup_iff.mpr sound.distinct)).1
  · intro refused
    have nothing : ledger.signer.passedToSign req = none :=
      if_neg fun allowed => refused.elim (fun other => other allowed.1) allowed.2
    have same := (step_request handled).1
    rw [step, nothing] at same
    exact same.symm

end NonceLedger

end Yip.Ca
