/-
This file describes what each call on the coordinator does to it, and shows that a run of the
authority is, for the coordinator in it, a sequence of such calls: a signer's first message
registers its commitments, a try of a client's task may start a session, and a share on a
signer's connection is received.
-/

import Yip.Ca.Authorisation

namespace Yip.Ca

open Members List

variable {frost : Frost}

inductive Call (frost : Frost) where
  | registerCommitments (signerId : Nat) (commitments : List (NonceSlotId × frost.Commitments))
  | trySpawnSession (message : List Byte)
  | receiveShare (sessionId signerId : Nat) (share : frost.Share)
      (replenish : Option (NonceSlotId × frost.Commitments))

namespace RoastCoordinator

def call (roast : RoastCoordinator frost) : Call frost → RoastCoordinator frost
  | .registerCommitments signerId commitments => roast.registerCommitments signerId commitments
  | .trySpawnSession message => { roast with message := message }.trySpawnSession.1
  | .receiveShare sessionId signerId share replenish =>
    (roast.receiveShare sessionId signerId share replenish).1

/-! ### What the calls do -/

/-- The signer can be taken into a new session. -/
structure Eligible (roast : RoastCoordinator frost) (signerId : Nat) : Prop where
  responsive : signerId ∈ roast.responsiveSigners
  spared : signerId ∉ roast.banishedSigners
  queued : roast.commitmentQueues signerId ≠ []

variable {roast : RoastCoordinator frost}

theorem eligible_of_mem {id : Nat} (member : id ∈ roast.eligible) : roast.Eligible id := by
  have passed := mem_of_mem_take member
  rw [mem_filter, inOrder_eq_sort, Finset.mem_sort, Bool.and_eq_true, decide_eq_true_iff,
    Bool.not_eq_true', isEmpty_eq_false_iff] at passed
  exact ⟨passed.1, passed.2.1, passed.2.2⟩

theorem nodup_eligible (roast : RoastCoordinator frost) : roast.eligible.Nodup :=
  ((inOrder_eq_sort _ ▸ Finset.sort_nodup _ _).filter _).sublist (take_sublist _ _)

def assignAll (roast : RoastCoordinator frost) (sessionId : Nat) (ids : List Nat) :
    RoastCoordinator frost :=
  { roast with
    responsiveSigners := roast.responsiveSigners \ ids.toFinset
    signerToSession := fun id => if id ∈ ids then some sessionId else roast.signerToSession id
    commitmentQueues := fun id =>
      if id ∈ ids then (roast.commitmentQueues id).tail else roast.commitmentQueues id }

theorem foldl_assign_eq (sessionId : Nat) (ids : List Nat) (distinct : ids.Nodup)
    (roast : RoastCoordinator frost) :
    ids.foldl (assign sessionId) roast = roast.assignAll sessionId ids := by
  induction ids generalizing roast with
  | nil => simp [assignAll]
  | cons first rest ih =>
    obtain ⟨once, distinct⟩ := nodup_cons.mp distinct
    rw [foldl_cons, ih distinct]
    unfold assignAll assign
    congr 1
    · ext id
      simp only [Finset.mem_sdiff, Finset.mem_erase, toFinset_cons, Finset.mem_insert]
      tauto
    · funext id
      by_cases own : id = first
      · simp [own, once]
      · simp [own]
    · funext id
      by_cases own : id = first
      · simp [own]
      · simp [own]

def spawned (roast : RoastCoordinator frost) : RoastSession frost where
  sessionId := roast.nextSessionId
  participants := roast.eligible.toFinset
  signingPackage := ⟨roast.eligible.filterMap fun id =>
    (roast.commitmentQueues id).head?.map fun entry => (id, entry.2), roast.message⟩
  collectedShares := ∅

def started (roast : RoastCoordinator frost) : RoastCoordinator frost :=
  { roast.assignAll roast.nextSessionId roast.eligible with
    nextSessionId := roast.nextSessionId + 1
    activeSessions := Function.update roast.activeSessions roast.nextSessionId
      (some roast.spawned) }

theorem trySpawnSession_of_few (few : roast.eligible.length < roast.threshold) :
    roast.trySpawnSession.1 = roast := by
  rw [trySpawnSession]
  rw [if_pos few]

theorem trySpawnSession_of_enough (enough : ¬ roast.eligible.length < roast.threshold) :
    roast.trySpawnSession.1 = roast.started := by
  rw [trySpawnSession]
  dsimp only
  rw [if_neg enough, foldl_assign_eq _ _ roast.nodup_eligible]
  simp only [started, assignAll, spawned, map_filterMap, Option.map_map, Function.comp_def]

theorem mem_spawned_package {id : Nat} {commitments : frost.Commitments}
    (member : (id, commitments) ∈ roast.spawned.signingPackage.commitments) :
    id ∈ roast.eligible ∧
      ∃ slot rest, roast.commitmentQueues id = (slot, commitments) :: rest := by
  obtain ⟨other, eligible, used⟩ := mem_filterMap.mp member
  obtain ⟨⟨slot, first⟩, head, same⟩ := Option.map_eq_some_iff.mp used
  obtain ⟨rfl, rfl⟩ := Prod.mk.inj same
  obtain ⟨rest, queue⟩ := head?_eq_some_iff.mp head
  exact ⟨eligible, slot, rest, queue⟩

def reaches (roast : RoastCoordinator frost) (sessionId signerId : Nat) : Bool :=
  (roast.activeSessions sessionId).any fun session =>
    signerId ∈ session.participants && frost.knows roast.pubkeyPackage signerId

def takes (roast : RoastCoordinator frost) (sessionId signerId : Nat) (share : frost.Share) :
    Bool :=
  (roast.activeSessions sessionId).any fun session =>
    signerId ∈ session.participants && frost.knows roast.pubkeyPackage signerId &&
      (frost.verifyShare roast.pubkeyPackage signerId share session.signingPackage).toBool

def banish (roast : RoastCoordinator frost) (signerId : Nat) : RoastCoordinator frost :=
  { roast with
    banishedSigners := insert signerId roast.banishedSigners
    signerToSession := Function.update roast.signerToSession signerId none }

def take (roast : RoastCoordinator frost) (sessionId signerId : Nat)
    (session : RoastSession frost) (share : frost.Share)
    (replenish : Option (NonceSlotId × frost.Commitments)) : RoastCoordinator frost :=
  { roast with
    commitmentQueues := Function.update roast.commitmentQueues signerId
      (roast.commitmentQueues signerId ++ replenish.toList)
    signerToSession := Function.update roast.signerToSession signerId none
    responsiveSigners := insert signerId roast.responsiveSigners
    activeSessions := Function.update roast.activeSessions sessionId
      (some { session with collectedShares := session.collectedShares.insert signerId share }) }

theorem receiveShare_cases (roast : RoastCoordinator frost) (sessionId signerId : Nat)
    (share : frost.Share) (replenish : Option (NonceSlotId × frost.Commitments)) :
    (roast.reaches sessionId signerId = false ∧ roast.takes sessionId signerId share = false ∧
      (roast.receiveShare sessionId signerId share replenish).1 = roast) ∨
    (roast.reaches sessionId signerId = true ∧ roast.takes sessionId signerId share = false ∧
      (roast.receiveShare sessionId signerId share replenish).1 = roast.banish signerId ∧
      ∃ session err, roast.activeSessions sessionId = some session ∧
        signerId ∈ session.participants ∧
        frost.verifyShare roast.pubkeyPackage signerId share session.signingPackage =
          .error err) ∨
    ∃ session, roast.activeSessions sessionId = some session ∧
      roast.reaches sessionId signerId = true ∧ roast.takes sessionId signerId share = true ∧
      (roast.receiveShare sessionId signerId share replenish).1 =
        roast.take sessionId signerId session share replenish := by
  unfold receiveShare reaches takes
  cases roast.activeSessions sessionId with
  | none => exact Or.inl ⟨rfl, rfl, rfl⟩
  | some session =>
    simp only [Option.any_some]
    by_cases participates : signerId ∈ session.participants
    swap
    · exact Or.inl ⟨by simp [participates], by simp [participates], by rw [if_pos participates]⟩
    rw [if_neg (not_not.mpr participates)]
    cases known : frost.knows roast.pubkeyPackage signerId with
    | false => exact Or.inl ⟨by simp, by simp, rfl⟩
    | true =>
      rw [if_neg (by simp)]
      cases verified :
        frost.verifyShare roast.pubkeyPackage signerId share session.signingPackage with
      | error err =>
        exact Or.inr (Or.inl ⟨by simp [participates], by simp [Except.toBool], rfl, session, err,
          rfl, participates, verified⟩)
      | ok =>
        refine Or.inr (Or.inr ⟨session, rfl, by simp [participates],
          by simp [participates, Except.toBool], ?_⟩)
        dsimp only
        split <;> rfl

end RoastCoordinator

/-! ### The calls of the authority -/

namespace Authority

variable {ed : Ed25519} {ca : Authority frost}

def coordinatorCall (ca : Authority frost) : Event frost → Option (Call frost)
  | .receive conn message _ _ =>
    match ca.conns conn, message with
    | .fresh, .quorum (.publishCommitments signerId _ commitments) =>
      some (.registerCommitments signerId commitments)
    | .signer _ _, .quorum (.signCertResponse payload) =>
      some (.receiveShare payload.sessionId payload.signerId payload.signatureShare
        payload.replenishCommitment)
    | _, _ => none
  | .attempt conn =>
    match ca.conns conn with
    | .spawning _ message (_ + 1) => some (.trySpawnSession message)
    | _ => none
  | _ => none

variable (conn : Nat) (payload : SubmitEnrollmentPayload)

theorem onSubmission_roast (challenge : Bytes 32) (message : CaWireMessage frost) :
    (onSubmission ed ca conn challenge message).roast = ca.roast := by
  unfold onSubmission
  split
  · split
    · rfl
    · split <;> rfl
  · rfl

theorem onDispatch_roast (sessionId : Nat) (requests : List (Nat × SignCertRequestPayload frost)) :
    (ca.onDispatch conn payload sessionId requests).roast = ca.roast := by
  cases requests with
  | nil => rfl
  | cons first rest =>
    rw [onDispatch]
    split
    · split <;> rfl
    · rfl

theorem onPoll_roast (sessionId polls : Nat) :
    (ca.onPoll conn payload sessionId polls).roast = ca.roast := by
  cases polls with
  | zero => rfl
  | succ polls =>
    rw [onPoll]
    split
    · rfl
    · split <;> rfl

theorem onSign_roast (conn nowSecs seed : Nat) :
    (ca.onSign conn nowSecs seed).roast = ca.roast := by
  unfold onSign
  split
  · rfl
  · split
    · rfl
    · split <;> rfl
    · rfl

theorem onAttempt_roast (message : List Byte) (tries : Nat) :
    (ca.onAttempt conn payload message (tries + 1)).roast =
      ca.roast.call (.trySpawnSession message) := by
  rw [onAttempt, RoastCoordinator.call]
  split
  · next spawned => rw [spawned]
  · next spawned => rw [spawned]

theorem step_roast (ca : Authority frost) (event : Event frost) :
    (step ed ca event).roast = match ca.coordinatorCall event with
      | none => ca.roast
      | some call => ca.roast.call call := by
  unfold step coordinatorCall
  cases event with
  | receive conn message challenge nowSecs =>
    dsimp only
    cases ca.conns conn with
    | fresh => rcases message with (_ | _ | _ | _) | (_ | _) | _ <;> rfl
    | signer signerId outbox => rcases message with (_ | _ | _ | _) | (_ | _) | _ <;> rfl
    | challenged nonce =>
      rcases message with (_ | _ | _ | _) | (_ | _) | _ <;> exact onSubmission_roast ..
    | spawning | dispatching | waiting | closed => rfl
  | disconnect conn =>
    dsimp only
    split <;> rfl
  | flush conn =>
    dsimp only
    split <;> rfl
  | attempt conn =>
    dsimp only
    cases ca.conns conn with
    | spawning payload message tries =>
      cases tries with
      | zero => rfl
      | succ tries => exact onAttempt_roast conn payload message tries
    | fresh | signer | challenged | dispatching | waiting | closed => rfl
  | dispatch conn =>
    dsimp only
    split
    · exact onDispatch_roast ..
    · rfl
  | poll conn =>
    dsimp only
    split
    · exact onPoll_roast ..
    · rfl
  | start conn =>
    dsimp only
    split <;> rfl
  | sign conn nowSecs seed => exact onSign_roast ..

end Authority

end Yip.Ca
