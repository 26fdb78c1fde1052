/-
This file is about who gets banished by the coordinator.
-/

import Yip.Ca.Calls

namespace Yip.Ca

open Members

section Banishment

variable {frost : Frost}

namespace RoastCoordinator

/-- The share is of a participant and does not verify. -/
def Blames (roast : RoastCoordinator frost) (payload : SignCertResponsePayload frost) : Prop :=
  ∃ session err, roast.activeSessions payload.sessionId = some session ∧
    payload.signerId ∈ session.participants ∧
    frost.verifyShare roast.pubkeyPackage payload.signerId payload.signatureShare
      session.signingPackage = .error err

theorem call_banishedSigners (roast : RoastCoordinator frost) (call : Call frost) {signerId : Nat}
    (banished : signerId ∈ (roast.call call).banishedSigners) :
    signerId ∈ roast.banishedSigners ∨ ∃ payload : SignCertResponsePayload frost,
      call = .receiveShare payload.sessionId payload.signerId payload.signatureShare
        payload.replenishCommitment ∧ payload.signerId = signerId ∧ roast.Blames payload := by
  cases call with
  | registerCommitments sender commitments =>
    rw [RoastCoordinator.call, registerCommitments] at banished
    split at banished <;> exact Or.inl banished
  | trySpawnSession message =>
    rw [RoastCoordinator.call] at banished
    generalize renamed : ({ roast with message := message } : RoastCoordinator frost) = named at *
    have same : roast.banishedSigners = named.banishedSigners := by rw [← renamed]
    rw [same]
    by_cases few : named.eligible.length < named.threshold
    · rw [trySpawnSession_of_few few] at banished
      exact Or.inl banished
    · rw [trySpawnSession_of_enough few] at banished
      exact Or.inl banished
  | receiveShare sessionId sender share replenish =>
    rw [RoastCoordinator.call] at banished
    rcases roast.receiveShare_cases sessionId sender share replenish with
      ⟨-, -, after⟩ | ⟨-, -, after, session, err, active, participates, rejected⟩ |
      ⟨session, -, -, -, after⟩
    · rw [after] at banished
      exact Or.inl banished
    · rw [after] at banished
      rcases Finset.mem_insert.mp banished with rfl | before
      · exact Or.inr ⟨⟨sessionId, signerId, share, replenish⟩, rfl, rfl, session, err, active,
          participates, rejected⟩
      · exact Or.inl before
    · rw [after] at banished
      exact Or.inl banished

end RoastCoordinator

namespace Authority

variable {ed : Ed25519} {ca : Authority frost} {signerId : Nat}

theorem coordinatorCall_receiveShare {event : Event frost} {payload : SignCertResponsePayload frost}
    (called : ca.coordinatorCall event = some (.receiveShare payload.sessionId payload.signerId
      payload.signatureShare payload.replenishCommitment)) :
    ∃ conn challenge nowSecs,
      event = .receive conn (.quorum (.signCertResponse payload)) challenge nowSecs := by
  unfold coordinatorCall at called
  split at called
  · next conn message challenge nowSecs =>
    split at called
    · cases called
    · obtain ⟨sessionId, sender, share, replenish⟩ := payload
      cases called
      exact ⟨conn, challenge, nowSecs, rfl⟩
    · cases called
  · split at called <;> cases called
  · cases called

theorem step_banishedSigners (event : Event frost)
    (banished : signerId ∈ (step ed ca event).roast.banishedSigners) :
    signerId ∈ ca.roast.banishedSigners ∨ ∃ conn payload challenge nowSecs,
      event = .receive conn (.quorum (.signCertResponse payload)) challenge nowSecs ∧
        payload.signerId = signerId ∧ ca.roast.Blames payload := by
  rw [step_roast] at banished
  cases called : ca.coordinatorCall event with
  | none =>
    rw [called] at banished
    exact Or.inl banished
  | some call =>
    rw [called] at banished
    rcases ca.roast.call_banishedSigners call banished with before | ⟨payload, rfl, own, blames⟩
    · exact Or.inl before
    · obtain ⟨conn, challenge, nowSecs, rfl⟩ := coordinatorCall_receiveShare called
      exact Or.inr ⟨conn, payload, challenge, nowSecs, rfl, own, blames⟩

/-! ### Runs -/

def Correct (own signerId : Nat) (ca : Authority frost) : Event frost → Prop
  | .receive conn (.quorum (.signCertResponse payload)) _ _ =>
    conn = own → payload.signerId = signerId → ¬ca.roast.Blames payload
  | _ => True

def Bound (own signerId : Nat) : Event frost → Prop
  | .receive conn (.quorum (.signCertResponse payload)) _ _ =>
    payload.signerId = signerId → conn = own
  | _ => True

/-- A signer whose own connection sends only correct shares is never banished, in every run in which
no other connection sends shares under its identifier. -/
theorem bound_signer_never_banished {threshold : Nat} {pubkeyPackage : frost.PublicKeyPackage}
    (own signerId : Nat) (events : List (Event frost))
    (admissible : Machine.Admissible (step ed)
      (fun ca event => Correct own signerId ca event ∧ Bound own signerId event)
      (new threshold pubkeyPackage) events) :
    signerId ∉ (Machine.run (step ed) (new threshold pubkeyPackage)
      events).roast.banishedSigners := by
  refine Machine.run_invariant (step ed) _ (fun ca => signerId ∉ ca.roast.banishedSigners) ?_ _
    events (Finset.notMem_empty signerId) admissible
  intro ca event spared ⟨correct, bound⟩ banished
  rcases step_banishedSigners event banished with before | ⟨conn, payload, _, _, rfl, names, blames⟩
  · exact spared before
  · exact correct (bound names) names blames

end Authority

end Banishment

/-! ### An executable coordinator -/

namespace Transparent

def namedShares : Frost :=
  { Transparent.frost with
    sign := fun _ _ (keyPackage : Nat) => .ok keyPackage
    verifyShare := fun _ signerId (share : Nat) _ =>
      if share = signerId then .ok () else .error "InvalidSignatureShare" }

def convened : List (Event namedShares) :=
  [.receive 1 (.quorum (.publishCommitments 1 5 [(⟨5, 1⟩, (0 : Nat))])) (fill 32 0) 0,
    .receive 2 (.quorum (.publishCommitments 2 5 [(⟨5, 1⟩, (0 : Nat))])) (fill 32 0) 0,
    .receive 3 (.clientReq .getChallenge) (fill 32 7) 1500,
    .receive 3 (.clientReq (.submitEnrollment ⟨fill 32 7, tbs, .renewalCert [] (fill 64 0),
      fill 64 1⟩)) (fill 32 0) 1500,
    .attempt 3]

def shared (conn signerId share : Nat) : Event namedShares :=
  .receive conn (.quorum (.signCertResponse ⟨1, signerId, share, none⟩)) (fill 32 0) 1500

def collected (events : List (Event namedShares)) : Authority namedShares :=
  Machine.run (Authority.step ed25519) (Authority.new 2 (fill 32 9)) (convened ++ events)

end Transparent

namespace Authority

open Transparent

/-- Signers 1 and 2 are in a session. Signer 1 sends a wrong share and is banished; the share of
signer 2 verifies, and it is free again. -/
theorem cheater_banished_alone :
    (1 ∈ (collected [shared 1 1 7, shared 2 2 2]).roast.banishedSigners ∧
        2 ∈ (collected [shared 1 1 7, shared 2 2 2]).roast.responsiveSigners) ∧
      2 ∉ (collected [shared 1 1 7, shared 2 2 2]).roast.banishedSigners := by
  refine ⟨by decide +kernel, bound_signer_never_banished 2 2 _ ?_⟩
  refine ⟨⟨trivial, trivial⟩, ⟨trivial, trivial⟩, ⟨trivial, trivial⟩, ⟨trivial, trivial⟩,
    ⟨trivial, trivial⟩, ⟨nofun, nofun⟩, ⟨?_, fun _ => rfl⟩, trivial⟩
  rintro - - ⟨session, err, -, -, rejected⟩
  cases rejected

/-- Signer 1 sends its share and nothing else. Then the connection of signer 2 sends a wrong share
under the identifier of signer 1, and signer 1 is banished. -/
theorem signer_framed :
    Machine.Admissible (step ed25519) (Correct 1 1) (new 2 (fill 32 9))
        (convened ++ [shared 1 1 1, shared 2 1 7]) ∧
      1 ∈ (collected [shared 1 1 1, shared 2 1 7]).roast.banishedSigners := by
  refine ⟨⟨trivial, trivial, trivial, trivial, trivial, ?_, nofun, trivial⟩, by decide +kernel⟩
  rintro - - ⟨session, err, -, -, rejected⟩
  cases rejected

end Authority

end Yip.Ca
