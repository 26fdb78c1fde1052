/-
This file is about the signers that the authority loses.
-/

import Yip.Ca.Calls

namespace Yip.Ca

open Members

section Signers

variable {frost : Frost} {ed : Ed25519}

namespace RoastCoordinator

/-! ### Who is free, call by call -/

variable (roast : RoastCoordinator frost)

def Assigns (signerId : Nat) (roast : RoastCoordinator frost) : Call frost → Prop
  | .trySpawnSession _ => roast.threshold ≤ roast.eligible.length ∧ signerId ∈ roast.eligible
  | _ => False

def Answers (signerId : Nat) (roast : RoastCoordinator frost) : Call frost → Prop
  | .receiveShare sessionId sender _ _ =>
    sender = signerId ∧ roast.reaches sessionId signerId = true
  | _ => False

theorem signerToSession_trySpawnSession (signerId : Nat) :
    roast.trySpawnSession.1.signerToSession signerId ≠ none ↔
      (roast.threshold ≤ roast.eligible.length ∧ signerId ∈ roast.eligible) ∨
        roast.signerToSession signerId ≠ none := by
  by_cases few : roast.eligible.length < roast.threshold
  · rw [trySpawnSession_of_few few]
    exact (or_iff_right fun taken => few.not_ge taken.1).symm
  · rw [trySpawnSession_of_enough few]
    show (if signerId ∈ roast.eligible then _ else _) ≠ none ↔ _
    split
    · next taken => exact iff_of_true (Option.some_ne_none _) (Or.inl ⟨not_lt.mp few, taken⟩)
    · next untaken => exact (or_iff_right fun taken => untaken taken.2).symm

theorem signerToSession_call (call : Call frost) (signerId : Nat) :
    ((roast.call call).signerToSession signerId ≠ none) ↔
      roast.Assigns signerId call ∨
        (roast.signerToSession signerId ≠ none ∧ ¬ roast.Answers signerId call) := by
  cases call with
  | registerCommitments sender commitments =>
    rw [RoastCoordinator.call, registerCommitments]
    split <;> simp [Assigns, Answers]
  | trySpawnSession message =>
    have changes := signerToSession_trySpawnSession { roast with message := message } signerId
    exact changes.trans (or_congr_right (and_iff_left not_false).symm)
  | receiveShare sessionId sender share replenish =>
    rw [RoastCoordinator.call]
    have released : ∀ after : RoastCoordinator frost,
        after.signerToSession = Function.update roast.signerToSession sender none →
        roast.reaches sessionId sender = true →
        ((after.signerToSession signerId ≠ none) ↔ roast.signerToSession signerId ≠ none ∧
          ¬ roast.Answers signerId (.receiveShare sessionId sender share replenish)) := by
      intro after table reached
      rw [table]
      by_cases own : signerId = sender
      · subst own
        simp [Answers, reached]
      · rw [Function.update_of_ne own]
        exact (and_iff_left fun answers => own answers.1.symm).symm
    simp only [Assigns, false_or]
    rcases roast.receiveShare_cases sessionId sender share replenish with
      ⟨missed, -, after⟩ | ⟨reached, -, after, -⟩ | ⟨session, -, reached, -, after⟩
    · rw [after]
      refine (and_iff_left ?_).symm
      rintro ⟨rfl, reached⟩
      rw [missed] at reached
      cases reached
    · rw [after]
      exact released _ rfl reached
    · rw [after]
      exact released _ rfl reached

structure Accounted (roast : RoastCoordinator frost) : Prop where
  busy : ∀ signerId, roast.signerToSession signerId ≠ none → signerId ∉ roast.responsiveSigners
  free : ∀ signerId, signerId ∉ roast.banishedSigners → roast.signerToSession signerId = none →
    roast.commitmentQueues signerId ≠ [] → signerId ∈ roast.responsiveSigners

namespace Accounted

variable {roast : RoastCoordinator frost}

theorem new (threshold : Nat) (pubkeyPackage : frost.PublicKeyPackage) :
    Accounted (RoastCoordinator.new threshold pubkeyPackage []) :=
  ⟨fun _ assigned => absurd rfl assigned, fun _ _ _ queued => absurd rfl queued⟩

section

variable (accounted : Accounted roast)

include accounted

theorem eligible_iff (signerId : Nat) :
    roast.Eligible signerId ↔ signerId ∉ roast.banishedSigners ∧
      roast.signerToSession signerId = none ∧ roast.commitmentQueues signerId ≠ [] := by
  constructor
  · intro eligible
    refine ⟨eligible.spared, ?_, eligible.queued⟩
    by_contra assigned
    exact accounted.busy signerId assigned eligible.responsive
  · rintro ⟨spared, unassigned, queued⟩
    exact ⟨accounted.free signerId spared unassigned queued, spared, queued⟩

theorem registerCommitments (sender : Nat) (commitments : List (NonceSlotId × frost.Commitments)) :
    Accounted (roast.registerCommitments sender commitments) := by
  rw [RoastCoordinator.registerCommitments]
  split
  · exact accounted
  · refine ⟨?_, ?_⟩
    · intro id assigned
      split
      · exact accounted.busy id assigned
      · next idle =>
        rw [Finset.mem_insert, not_or]
        refine ⟨?_, accounted.busy id assigned⟩
        rintro rfl
        exact idle (Option.isSome_iff_ne_none.mpr assigned)
    · intro id spared unassigned queued
      dsimp only at queued ⊢
      by_cases own : id = sender
      · subst own
        rw [if_neg (by rw [unassigned]; exact Bool.false_ne_true)]
        exact Finset.mem_insert_self _ _
      · rw [Function.update_of_ne own] at queued
        have free := accounted.free id spared unassigned queued
        split
        · exact free
        · exact Finset.mem_insert_of_mem free

theorem trySpawnSession : Accounted roast.trySpawnSession.1 := by
  by_cases few : roast.eligible.length < roast.threshold
  · rw [trySpawnSession_of_few few]
    exact accounted
  rw [trySpawnSession_of_enough few]
  have session : ∀ id, roast.started.signerToSession id =
      if id ∈ roast.eligible then some roast.nextSessionId else roast.signerToSession id :=
    fun _ => rfl
  refine ⟨?_, ?_⟩
  · intro id assigned free
    obtain ⟨before, untaken⟩ := Finset.mem_sdiff.mp free
    rw [session, if_neg fun taken => untaken (List.mem_toFinset.mpr taken)] at assigned
    exact accounted.busy id assigned before
  · intro id spared unassigned queued
    rw [session] at unassigned
    split at unassigned
    · cases unassigned
    · next untaken =>
      have queue : roast.started.commitmentQueues id = roast.commitmentQueues id :=
        if_neg untaken
      rw [queue] at queued
      exact Finset.mem_sdiff.mpr ⟨accounted.free id spared unassigned queued,
        fun taken => untaken (List.mem_toFinset.mp taken)⟩

theorem receiveShare (sessionId sender : Nat) (share : frost.Share)
    (replenish : Option (NonceSlotId × frost.Commitments)) :
    Accounted (roast.receiveShare sessionId sender share replenish).1 := by
  rcases roast.receiveShare_cases sessionId sender share replenish with
    ⟨-, -, after⟩ | ⟨-, -, after, -⟩ | ⟨session, -, -, -, after⟩
  · rw [after]
    exact accounted
  · rw [after]
    refine ⟨?_, ?_⟩
    · intro id assigned
      by_cases own : id = sender
      · exact absurd (own ▸ Function.update_self ..) assigned
      · exact accounted.busy id fun none => assigned ((Function.update_of_ne own ..).trans none)
    · intro id spared unassigned queued
      obtain ⟨other, sparedBefore⟩ := not_or.mp (Finset.mem_insert.not.mp spared)
      exact accounted.free id sparedBefore
        ((Function.update_of_ne other ..).symm.trans unassigned) queued
  · rw [after]
    refine ⟨?_, ?_⟩
    · intro id assigned free
      by_cases own : id = sender
      · exact absurd (own ▸ Function.update_self ..) assigned
      · exact accounted.busy id (fun none => assigned ((Function.update_of_ne own ..).trans none))
          ((Finset.mem_insert.mp free).resolve_left own)
    · intro id spared unassigned queued
      by_cases own : id = sender
      · exact Finset.mem_insert.mpr (Or.inl own)
      · have queue : (roast.take sessionId sender session share replenish).commitmentQueues id =
            roast.commitmentQueues id := Function.update_of_ne own ..
        rw [queue] at queued
        exact Finset.mem_insert_of_mem (accounted.free id spared
          ((Function.update_of_ne own ..).symm.trans unassigned) queued)

theorem call (call : Call frost) : Accounted (roast.call call) := by
  cases call with
  | registerCommitments sender commitments => exact accounted.registerCommitments sender commitments
  | trySpawnSession message =>
    have renamed : Accounted { roast with message := message } :=
      ⟨accounted.busy, accounted.free⟩
    exact renamed.trySpawnSession
  | receiveShare sessionId sender share replenish =>
    exact accounted.receiveShare sessionId sender share replenish

end

end Accounted

end RoastCoordinator

/-! ### The signers of the authority -/

namespace Authority

open RoastCoordinator

variable {ca : Authority frost}

def AssignsSigner (signerId : Nat) (ca : Authority frost) (event : Event frost) : Prop :=
  ∃ call, ca.coordinatorCall event = some call ∧ ca.roast.Assigns signerId call

def AnswersFor (signerId : Nat) (ca : Authority frost) (event : Event frost) : Prop :=
  ∃ call, ca.coordinatorCall event = some call ∧ ca.roast.Answers signerId call

/-- The signer was assigned to a session and has not answered since. -/
def OwesShare (ed : Ed25519) (threshold : Nat) (pubkeyPackage : frost.PublicKeyPackage)
    (events : List (Event frost)) (signerId : Nat) : Prop :=
  ∃ index,
    Machine.Happens (step ed) (new threshold pubkeyPackage) events index
      (AssignsSigner signerId) ∧
    ∀ later, index < later →
      ¬ Machine.Happens (step ed) (new threshold pubkeyPackage) events later (AnswersFor signerId)

theorem step_signerToSession (ca : Authority frost) (event : Event frost) (signerId : Nat) :
    (step ed ca event).roast.signerToSession signerId ≠ none ↔
      AssignsSigner signerId ca event ∨
        (ca.roast.signerToSession signerId ≠ none ∧ ¬ AnswersFor signerId ca event) := by
  rw [step_roast]
  unfold AssignsSigner AnswersFor
  cases ca.coordinatorCall event with
  | none => simp
  | some call =>
    simp only [Option.some.injEq, exists_eq_left']
    exact signerToSession_call ca.roast call signerId

section Runs

variable {threshold : Nat} {pubkeyPackage : frost.PublicKeyPackage} {events : List (Event frost)}

theorem owesShare_iff (signerId : Nat) :
    OwesShare ed threshold pubkeyPackage events signerId ↔
      (Machine.run (step ed) (new threshold pubkeyPackage) events).roast.signerToSession
        signerId ≠ none :=
  (Machine.run_flag_iff (step ed) (fun ca => ca.roast.signerToSession signerId ≠ none)
    (fun ca event => step_signerToSession ca event signerId) (fun assigned => assigned rfl)
    events).symm

theorem run_accounted (ed : Ed25519) (threshold : Nat) (pubkeyPackage : frost.PublicKeyPackage)
    (events : List (Event frost)) :
    Accounted (Machine.run (step ed) (new threshold pubkeyPackage) events).roast := by
  refine Machine.run_invariant (step ed) (fun _ _ => True) (fun ca => Accounted ca.roast) ?_ _
    events (Accounted.new threshold pubkeyPackage)
    (Machine.admissible_of_forall _ (fun _ => True) _ events fun _ _ => trivial)
  intro ca event accounted _
  rw [step_roast]
  cases ca.coordinatorCall event with
  | none => exact accounted
  | some call => exact accounted.call call

end Runs

/-- In every run, a signer that publishes commitments on a new connection may be taken by the next
session if and only if it is not banished and owes no share, and so may a signer that has just sent
a refusal, if it has a commitment left. -/
theorem returning_signer_eligible_iff (ed : Ed25519) (threshold : Nat)
    (pubkeyPackage : frost.PublicKeyPackage) (events : List (Event frost)) (conn signerId : Nat) :
    let reached := Machine.run (step ed) (new threshold pubkeyPackage) events
    (∀ bootEpochId commitments challenge nowSecs, reached.conns conn = .fresh →
        commitments ≠ [] →
        ((step ed reached (.receive conn (.quorum (.publishCommitments signerId bootEpochId
          commitments)) challenge nowSecs)).roast.Eligible signerId ↔
            signerId ∉ reached.roast.banishedSigners ∧
              ¬ OwesShare ed threshold pubkeyPackage events signerId)) ∧
      ∀ outbox sessionId reason challenge nowSecs,
        reached.conns conn = .signer signerId outbox →
        ((step ed reached (.receive conn (.quorum (.signCertReject sessionId signerId reason))
          challenge nowSecs)).roast.Eligible signerId ↔
            signerId ∉ reached.roast.banishedSigners ∧
              ¬ OwesShare ed threshold pubkeyPackage events signerId ∧
              reached.roast.commitmentQueues signerId ≠ []) := by
  have accounted := run_accounted ed threshold pubkeyPackage events
  simp only [owesShare_iff, not_not]
  generalize Machine.run (step ed) (new threshold pubkeyPackage) events = reached at accounted
  refine ⟨?_, ?_⟩
  · intro bootEpochId commitments challenge nowSecs fresh some
    have called : reached.coordinatorCall (.receive conn (.quorum (.publishCommitments signerId
        bootEpochId commitments)) challenge nowSecs) =
          .some (.registerCommitments signerId commitments) := by
      unfold coordinatorCall
      dsimp only
      rw [fresh]
    rw [step_roast, called]
    rw [(accounted.call _).eligible_iff, RoastCoordinator.call, registerCommitments]
    split
    · next banished => exact iff_of_false (fun both => both.1 banished) fun both => both.1 banished
    · refine and_congr_right fun _ => and_iff_left ?_
      show Function.update reached.roast.commitmentQueues signerId _ signerId ≠ []
      rw [Function.update_self]
      exact fun empty => some (List.append_eq_nil_iff.mp empty).2
  · intro outbox sessionId reason challenge nowSecs speaks
    have called : reached.coordinatorCall (.receive conn (.quorum (.signCertReject sessionId
        signerId reason)) challenge nowSecs) = none := by
      unfold coordinatorCall
      dsimp only
      rw [speaks]
    rw [step_roast, called]
    exact accounted.eligible_iff signerId

end Authority

end Signers

/-! ### An executable authority -/

instance {frost : Frost} : ∀ stage : Conn frost, Decidable (stage = .fresh)
  | .fresh => isTrue rfl
  | .signer _ _ | .challenged _ | .spawning _ _ _ | .dispatching _ _ _ | .waiting _ _ _ | .closed =>
    isFalse (by rintro ⟨⟩)

namespace Transparent

def refusal (ca : Authority frost) (conn : Nat) : Option String := do
  let daemon ← ca.daemons conn
  match (ca.written conn)[daemon.read]? with
  | some (.quorum (.signCertRequest request)) =>
    match ← daemon.signer.handleSignRequest request 99 with
    | (_, .signCertReject _ _ reason) => some reason
    | _ => none
  | _ => none

def asked : List (Event frost) :=
  (enrolment ⟨500, none, none⟩ (.renewalCert [] (fill 64 0))).take 10

def refused : List (Event frost) :=
  asked ++ [.receive 0 (.quorum (.signCertReject 1 1
      "Certificate TTL exceeds signer policy maximum")) (fill 32 0) 1500,
    .receive 5 (.quorum (.publishCommitments 1 6 [(⟨6, 1⟩, (3 : Nat))])) (fill 32 0) 1501]

def answered : List (Event frost) :=
  asked ++ [.receive 0 (.quorum (.signCertResponse ⟨1, 1, (0 : Nat), none⟩)) (fill 32 0) 1500,
    .disconnect 0]

def ran (events : List (Event frost)) : Authority frost :=
  Machine.run (Authority.step ed25519) (Authority.new 2 (fill 32 9)) events

end Transparent

namespace Authority

open Transparent

/-- A signer that has answered is taken again once it is back. -/
theorem answered_signer_returns :
    (ran answered).conns 5 = .fresh ∧
      (step ed25519 (ran answered) (.receive 5 (.quorum (.publishCommitments 1 6
        [(⟨6, 1⟩, (3 : Nat))])) (fill 32 0) 1501)).roast.Eligible 1 := by
  have fresh : (ran answered).conns 5 = .fresh := by decide +kernel
  have spared : 1 ∉ (ran answered).roast.banishedSigners := by decide +kernel
  have free : (ran answered).roast.signerToSession 1 = none := by decide +kernel
  refine ⟨fresh, ?_⟩
  refine ((@returning_signer_eligible_iff Transparent.frost ed25519 2 (fill 32 9) answered 5 1).1 6
    [(⟨6, 1⟩, (3 : Nat))] (fill 32 0) 1501 fresh (List.cons_ne_nil _ _)).mpr ⟨spared, ?_⟩
  exact fun owes => (owesShare_iff 1).mp owes free

/-- The signer refuses what its policy forbids, and no session takes it any more. -/
theorem refusing_signer_lost :
    refusal (ran asked) 0 = some "Certificate TTL exceeds signer policy maximum" ∧
      1 ∉ (ran refused).roast.banishedSigners ∧
      (ran refused).roast.signerToSession 1 = some 1 ∧
      1 ∉ (ran refused).roast.responsiveSigners ∧ (ran refused).roast.eligible = [] := by
  decide +kernel

end Authority

end Yip.Ca
