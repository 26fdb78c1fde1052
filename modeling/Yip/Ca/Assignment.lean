/-
This file is about which signers the coordinator puts into which sessions.
-/

import Yip.Ca.Calls

namespace Yip.Ca

open Members List

variable {frost : Frost}

namespace RoastCoordinator

def Unanswered (roast : RoastCoordinator frost) (sessionId signerId : Nat) : Prop :=
  ∃ session, roast.activeSessions sessionId = some session ∧ signerId ∈ session.participants ∧
    session.collectedShares.lookup signerId = none

instance (roast : RoastCoordinator frost) (sessionId signerId : Nat) :
    Decidable (roast.Unanswered sessionId signerId) :=
  decidable_of_iff ((roast.activeSessions sessionId).any fun session =>
      signerId ∈ session.participants && (session.collectedShares.lookup signerId).isNone) (by
    simp only [Option.any_eq_true, Bool.and_eq_true, decide_eq_true_iff, Option.isNone_iff_eq_none]
    rfl)

def Places (roast : RoastCoordinator frost) (sessionId signerId : Nat)
    (commitments : frost.Commitments) : Prop :=
  ∃ session, roast.activeSessions sessionId = some session ∧
    (signerId, commitments) ∈ session.signingPackage.commitments

instance [DecidableEq frost.Commitments] (roast : RoastCoordinator frost)
    (sessionId signerId : Nat) (commitments : frost.Commitments) :
    Decidable (roast.Places sessionId signerId commitments) :=
  decidable_of_iff ((roast.activeSessions sessionId).any fun session =>
      (signerId, commitments) ∈ session.signingPackage.commitments) (by
    simp only [Option.any_eq_true, decide_eq_true_iff]
    rfl)

variable {roast : RoastCoordinator frost} {sessionId signerId : Nat}

theorem unanswered_started :
    roast.started.Unanswered sessionId signerId ↔
      if sessionId = roast.nextSessionId then signerId ∈ roast.eligible
      else roast.Unanswered sessionId signerId := by
  unfold Unanswered started
  dsimp only
  split
  · next own =>
    rw [own, Function.update_self]
    constructor
    · rintro ⟨session, found, participates, -⟩
      obtain rfl := Option.some.inj found
      exact mem_toFinset.mp participates
    · exact fun eligible => ⟨roast.spawned, rfl, mem_toFinset.mpr eligible, rfl⟩
  · next other => rw [Function.update_of_ne other]

theorem places_started {commitments : frost.Commitments} :
    roast.started.Places sessionId signerId commitments ↔
      if sessionId = roast.nextSessionId then
        (signerId, commitments) ∈ roast.spawned.signingPackage.commitments
      else roast.Places sessionId signerId commitments := by
  unfold Places started
  dsimp only
  split
  · next own =>
    rw [own, Function.update_self]
    constructor
    · rintro ⟨session, found, placed⟩
      obtain rfl := Option.some.inj found
      exact placed
    · exact fun placed => ⟨roast.spawned, rfl, placed⟩
  · next other => rw [Function.update_of_ne other]

section Take

variable {roast : RoastCoordinator frost} {sessionId signerId : Nat} {session : RoastSession frost}
  {share : frost.Share} {replenish : Option (NonceSlotId × frost.Commitments)}
  (active : roast.activeSessions sessionId = some session) {other otherSigner : Nat}

include active

theorem unanswered_take :
    (roast.take sessionId signerId session share replenish).Unanswered other otherSigner ↔
      roast.Unanswered other otherSigner ∧ ¬ (other = sessionId ∧ otherSigner = signerId) := by
  unfold Unanswered take
  dsimp only
  by_cases same : other = sessionId
  swap
  · rw [Function.update_of_ne same]
    exact (and_iff_left fun both => same both.1).symm
  subst same
  rw [Function.update_self, active]
  simp only [Option.some.injEq, exists_eq_left']
  by_cases own : otherSigner = signerId
  · subst own
    simp
  · rw [AList.lookup_insert_ne own]
    simp [own]

theorem places_take {commitments : frost.Commitments} :
    (roast.take sessionId signerId session share replenish).Places other otherSigner commitments ↔
      roast.Places other otherSigner commitments := by
  unfold Places take
  dsimp only
  by_cases same : other = sessionId
  · subst same
    rw [Function.update_self, active]
    simp only [Option.some.injEq, exists_eq_left']
  · rw [Function.update_of_ne same]

end Take

end RoastCoordinator

/-! ### Sequences of calls -/

/-- The coordinator, with the commitments each signer published. -/
structure Ledger (frost : Frost) where
  roast : RoastCoordinator frost
  published : Nat → List frost.Commitments

namespace Ledger

open RoastCoordinator

def new (threshold : Nat) (pubkeyPackage : frost.PublicKeyPackage) : Ledger frost :=
  ⟨RoastCoordinator.new threshold pubkeyPackage [], fun _ => []⟩

def publish (published : Nat → List frost.Commitments) (signerId : Nat)
    (commitments : List (NonceSlotId × frost.Commitments)) : Nat → List frost.Commitments :=
  Function.update published signerId (published signerId ++ commitments.map Prod.snd)

variable (ledger : Ledger frost) (call : Call frost)

def queued (ledger : Ledger frost) : Call frost → Nat → List frost.Commitments
  | .registerCommitments signerId commitments =>
    if signerId ∈ ledger.roast.banishedSigners then ledger.published
    else publish ledger.published signerId commitments
  | .trySpawnSession _ => ledger.published
  | .receiveShare sessionId signerId share replenish =>
    if ledger.roast.takes sessionId signerId share then
      publish ledger.published signerId replenish.toList
    else ledger.published

def step (ledger : Ledger frost) (call : Call frost) : Ledger frost :=
  ⟨ledger.roast.call call, ledger.queued call⟩

def Fresh (ledger : Ledger frost) : Call frost → Prop
  | .registerCommitments signerId commitments =>
    signerId ∈ ledger.roast.banishedSigners ∨
      (ledger.published signerId ++ commitments.map Prod.snd).Nodup
  | .trySpawnSession _ => True
  | .receiveShare sessionId signerId share replenish =>
    ledger.roast.takes sessionId signerId share = true →
      ledger.roast.Unanswered sessionId signerId ∧
        (ledger.published signerId ++ replenish.toList.map Prod.snd).Nodup

instance [DecidableEq frost.Commitments] (ledger : Ledger frost) (call : Call frost) :
    Decidable (ledger.Fresh call) := by
  unfold Fresh
  split <;> infer_instance

/-! ### One session at a time -/

/-- A signer that owes a share is in one session only. -/
structure Exclusive (roast : RoastCoordinator frost) : Prop where
  unstarted : ∀ sessionId, roast.nextSessionId ≤ sessionId → roast.activeSessions sessionId = none
  busy : ∀ sessionId signerId, roast.Unanswered sessionId signerId →
    signerId ∉ roast.responsiveSigners
  recorded : ∀ sessionId signerId, roast.Unanswered sessionId signerId →
    roast.signerToSession signerId = some sessionId ∨ signerId ∈ roast.banishedSigners
  unique : ∀ first second signerId, roast.Unanswered first signerId →
    roast.Unanswered second signerId → first = second

namespace Exclusive

variable {roast : RoastCoordinator frost}

theorem new (threshold : Nat) (pubkeyPackage : frost.PublicKeyPackage) :
    Exclusive (RoastCoordinator.new threshold pubkeyPackage []) := by
  refine ⟨fun _ _ => rfl, ?_, ?_, ?_⟩
  · rintro sessionId signerId ⟨session, active, -⟩
    cases active
  · rintro sessionId signerId ⟨session, active, -⟩
    cases active
  · rintro first second signerId ⟨session, active, -⟩
    cases active

theorem registerCommitments (exclusive : Exclusive roast) (signerId : Nat)
    (commitments : List (NonceSlotId × frost.Commitments)) :
    Exclusive (roast.registerCommitments signerId commitments) := by
  rw [RoastCoordinator.registerCommitments]
  split
  · exact exclusive
  · next spared =>
    refine ⟨exclusive.unstarted, ?_, exclusive.recorded, exclusive.unique⟩
    intro sessionId other waits
    split
    · exact exclusive.busy sessionId other waits
    · next idle =>
      rw [Finset.mem_insert, not_or]
      refine ⟨?_, exclusive.busy sessionId other waits⟩
      rintro rfl
      rcases exclusive.recorded sessionId other waits with assigned | banished
      · exact idle (by rw [assigned]; rfl)
      · exact spared banished

theorem trySpawnSession (exclusive : Exclusive roast) : Exclusive roast.trySpawnSession.1 := by
  by_cases few : roast.eligible.length < roast.threshold
  · rw [trySpawnSession_of_few few]
    exact exclusive
  rw [trySpawnSession_of_enough few]
  -- a signer that is taken was free, so it was waiting nowhere
  have idle : ∀ sessionId id, id ∈ roast.eligible → ¬ roast.Unanswered sessionId id :=
    fun sessionId id member waits =>
      exclusive.busy sessionId id waits (eligible_of_mem member).responsive
  have outside : ∀ sessionId id, roast.Unanswered sessionId id → id ∉ roast.eligible :=
    fun sessionId id waits member => idle sessionId id member waits
  refine ⟨?_, ?_, ?_, ?_⟩
  · intro sessionId later
    have unstarted := exclusive.unstarted sessionId (Nat.le_of_succ_le later)
    exact (Function.update_of_ne (Nat.ne_of_gt later) ..).trans unstarted
  · intro sessionId id waits free
    rw [unanswered_started] at waits
    obtain ⟨before, untaken⟩ := Finset.mem_sdiff.mp free
    split at waits
    · exact untaken (mem_toFinset.mpr waits)
    · exact exclusive.busy sessionId id waits before
  · intro sessionId id waits
    rw [unanswered_started] at waits
    split at waits
    · next own =>
      left
      rw [own]
      exact if_pos waits
    · have before := exclusive.recorded sessionId id waits
      rwa [show roast.started.signerToSession id = roast.signerToSession id from
        if_neg (outside sessionId id waits)]
  · intro first second id inFirst inSecond
    rw [unanswered_started] at inFirst inSecond
    split at inFirst <;> split at inSecond
    · next firstNew secondNew => exact firstNew.trans secondNew.symm
    · exact absurd inSecond (idle second id inFirst)
    · exact absurd inFirst (idle first id inSecond)
    · exact exclusive.unique first second id inFirst inSecond

theorem receiveShare (exclusive : Exclusive roast) (sessionId signerId : Nat)
    (share : frost.Share) (replenish : Option (NonceSlotId × frost.Commitments))
    (once : roast.takes sessionId signerId share = true → roast.Unanswered sessionId signerId) :
    Exclusive (roast.receiveShare sessionId signerId share replenish).1 := by
  rcases roast.receiveShare_cases sessionId signerId share replenish with
    ⟨-, -, unchanged⟩ | ⟨-, -, blamed, -⟩ | ⟨session, active, -, taken, after⟩
  · rw [unchanged]
    exact exclusive
  · rw [blamed]
    refine ⟨exclusive.unstarted, exclusive.busy, ?_, exclusive.unique⟩
    intro other id waits
    by_cases own : id = signerId
    · exact Or.inr (Finset.mem_insert.mpr (Or.inl own))
    · refine (exclusive.recorded other id waits).imp (fun assigned => ?_) Finset.mem_insert_of_mem
      exact (Function.update_of_ne own ..).trans assigned
  · rw [after]
    -- the session that is answered was the only one to wait for this signer
    have others : ∀ other id,
        (roast.take sessionId signerId session share replenish).Unanswered other id →
          roast.Unanswered other id ∧ id ≠ signerId := by
      intro other id waits
      obtain ⟨before, remains⟩ := (unanswered_take active).mp waits
      refine ⟨before, ?_⟩
      rintro rfl
      exact remains ⟨exclusive.unique other sessionId id before (once taken), rfl⟩
    refine ⟨?_, ?_, ?_, ?_⟩
    · intro other later
      have unstarted := exclusive.unstarted other later
      have elsewhere : other ≠ sessionId := by
        rintro rfl
        rw [active] at unstarted
        cases unstarted
      exact (Function.update_of_ne elsewhere ..).trans unstarted
    · intro other id waits free
      obtain ⟨before, apart⟩ := others other id waits
      exact exclusive.busy other id before ((Finset.mem_insert.mp free).resolve_left apart)
    · intro other id waits
      obtain ⟨before, apart⟩ := others other id waits
      refine (exclusive.recorded other id before).imp_left fun assigned => ?_
      exact (Function.update_of_ne apart ..).trans assigned
    · intro first second id inFirst inSecond
      exact exclusive.unique first second id (others first id inFirst).1
        (others second id inSecond).1

end Exclusive

/-! ### One package per commitment -/

/-- A commitment is in a queue or in one session, never twice. -/
structure Placed (roast : RoastCoordinator frost) (published : Nat → List frost.Commitments) :
    Prop where
  queued : ∀ signerId, ((roast.commitmentQueues signerId).map Prod.snd).Nodup
  known : ∀ signerId, ∀ entry ∈ roast.commitmentQueues signerId, entry.2 ∈ published signerId
  placed : ∀ sessionId signerId commitments, roast.Places sessionId signerId commitments →
    commitments ∈ published signerId ∧
      commitments ∉ (roast.commitmentQueues signerId).map Prod.snd
  once : ∀ first second signerId commitments, roast.Places first signerId commitments →
    roast.Places second signerId commitments → first = second

namespace Placed

variable {roast after : RoastCoordinator frost} {published : Nat → List frost.Commitments}

theorem new (threshold : Nat) (pubkeyPackage : frost.PublicKeyPackage) :
    Placed (RoastCoordinator.new threshold pubkeyPackage []) fun _ => [] := by
  refine ⟨fun _ => nodup_nil, ?_, ?_, ?_⟩
  · exact fun signerId entry queued => absurd queued not_mem_nil
  · rintro sessionId signerId commitments ⟨session, active, -⟩
    cases active
  · rintro first second signerId commitments ⟨session, active, -⟩
    cases active

theorem extend (placed : Placed roast published) {signerId : Nat}
    {commitments : List (NonceSlotId × frost.Commitments)}
    (queues : after.commitmentQueues = Function.update roast.commitmentQueues signerId
      (roast.commitmentQueues signerId ++ commitments))
    (places : ∀ {sessionId id used}, after.Places sessionId id used ↔
      roast.Places sessionId id used)
    (fresh : (published signerId ++ commitments.map Prod.snd).Nodup) :
    Placed after (publish published signerId commitments) := by
  obtain ⟨-, freshNodup, apart⟩ := nodup_append.mp fresh
  refine ⟨?_, ?_, ?_, fun first second id used inFirst inSecond =>
    placed.once first second id used (places.mp inFirst) (places.mp inSecond)⟩
  · intro id
    rw [queues]
    by_cases same : id = signerId
    · subst same
      rw [Function.update_self, map_append]
      refine nodup_append.mpr ⟨placed.queued id, freshNodup, ?_⟩
      intro first inQueue second isFresh
      obtain ⟨entry, member, rfl⟩ := mem_map.mp inQueue
      exact apart _ (placed.known id entry member) second isFresh
    · rw [Function.update_of_ne same]
      exact placed.queued id
  · intro id entry member
    rw [queues] at member
    by_cases same : id = signerId
    · subst same
      rw [Function.update_self] at member
      rw [publish, Function.update_self, mem_append]
      exact (mem_append.mp member).imp (placed.known id entry) mem_map_of_mem
    · rw [Function.update_of_ne same] at member
      rw [publish, Function.update_of_ne same]
      exact placed.known id entry member
  · intro sessionId id used isPlaced
    obtain ⟨known, gone⟩ := placed.placed sessionId id used (places.mp isPlaced)
    rw [queues, publish]
    by_cases same : id = signerId
    · subst same
      rw [Function.update_self, Function.update_self, map_append, mem_append,
        mem_append, not_or]
      exact ⟨Or.inl known, gone, fun isFresh => apart used known used isFresh rfl⟩
    · rw [Function.update_of_ne same, Function.update_of_ne same]
      exact ⟨known, gone⟩

theorem started (placed : Placed roast published) : Placed roast.started published := by
  have suffix : ∀ id, roast.started.commitmentQueues id <:+ roast.commitmentQueues id := by
    intro id
    show (if id ∈ roast.eligible then _ else _) <:+ _
    split
    · exact tail_suffix _
    · exact suffix_rfl
  have used : ∀ {id commitments},
      (id, commitments) ∈ roast.spawned.signingPackage.commitments →
        commitments ∈ (roast.commitmentQueues id).map Prod.snd ∧
          commitments ∉ (roast.started.commitmentQueues id).map Prod.snd := by
    intro id commitments member
    obtain ⟨eligible, slot, rest, queue⟩ := mem_spawned_package member
    have popped : roast.started.commitmentQueues id = rest := by
      show (if id ∈ roast.eligible then _ else _) = rest
      rw [if_pos eligible, queue, tail_cons]
    have distinct := placed.queued id
    rw [queue] at distinct ⊢
    rw [popped]
    exact ⟨mem_cons_self, (nodup_cons.mp distinct).1⟩
  refine ⟨?_, ?_, ?_, ?_⟩
  · exact fun id => (placed.queued id).sublist ((suffix id).sublist.map _)
  · exact fun id entry member => placed.known id entry ((suffix id).subset member)
  · intro sessionId id commitments isPlaced
    rw [places_started] at isPlaced
    split at isPlaced
    · obtain ⟨inQueue, gone⟩ := used isPlaced
      obtain ⟨entry, member, rfl⟩ := mem_map.mp inQueue
      exact ⟨placed.known id entry member, gone⟩
    · obtain ⟨known, gone⟩ := placed.placed sessionId id commitments isPlaced
      exact ⟨known, fun member => gone (((suffix id).sublist.map _).subset member)⟩
  · intro first second id commitments inFirst inSecond
    rw [places_started] at inFirst inSecond
    split at inFirst <;> split at inSecond
    · next firstNew secondNew => exact firstNew.trans secondNew.symm
    · exact absurd (used inFirst).1 (placed.placed second id commitments inSecond).2
    · exact absurd (used inSecond).1 (placed.placed first id commitments inFirst).2
    · exact placed.once first second id commitments inFirst inSecond

theorem trySpawnSession (placed : Placed roast published) :
    Placed roast.trySpawnSession.1 published := by
  by_cases few : roast.eligible.length < roast.threshold
  · rw [trySpawnSession_of_few few]
    exact placed
  · rw [trySpawnSession_of_enough few]
    exact placed.started

end Placed

/-! ### Every sequence of calls that repeats nothing -/

theorem step_exclusive (exclusive : Exclusive ledger.roast) (fresh : ledger.Fresh call) :
    Exclusive (ledger.step call).roast := by
  cases call with
  | registerCommitments signerId commitments => exact exclusive.registerCommitments _ _
  | trySpawnSession message =>
    have renamed : Exclusive { ledger.roast with message := message } := { exclusive with }
    exact renamed.trySpawnSession
  | receiveShare sessionId signerId share replenish =>
    exact exclusive.receiveShare _ _ _ _ fun taken => (fresh taken).1

theorem step_placed (placed : Placed ledger.roast ledger.published) (fresh : ledger.Fresh call) :
    Placed (ledger.step call).roast (ledger.step call).published := by
  rw [step]
  cases call with
  | registerCommitments signerId commitments =>
    rw [call, queued, RoastCoordinator.registerCommitments]
    by_cases banished : signerId ∈ ledger.roast.banishedSigners
    · rw [if_pos banished, if_pos banished]
      exact placed
    · rw [if_neg banished, if_neg banished]
      exact placed.extend rfl Iff.rfl (fresh.resolve_left banished)
  | trySpawnSession message =>
    have renamed : Placed { ledger.roast with message := message } ledger.published :=
      { placed with }
    exact renamed.trySpawnSession
  | receiveShare sessionId signerId share replenish =>
    rw [call, queued]
    rcases ledger.roast.receiveShare_cases sessionId signerId share replenish with
      ⟨-, passed, after⟩ | ⟨-, passed, after, -⟩ | ⟨session, active, -, taken, after⟩
    · rw [after, passed]
      exact placed
    · rw [after, passed]
      exact { placed with }
    · rw [after, taken]
      exact placed.extend rfl (places_take active) (fresh taken).2

/-- In every sequence of calls that repeats no share and no commitment, a signer that has an
unanswered session is not free, has no second one, and no commitment is in two signing packages. -/
theorem one_session_one_package (threshold : Nat) (pubkeyPackage : frost.PublicKeyPackage)
    (calls : List (Call frost))
    (fresh : Machine.Admissible step Fresh (new threshold pubkeyPackage) calls) :
    let roast := (Machine.run step (new threshold pubkeyPackage) calls).roast
    (∀ sessionId signerId, roast.Unanswered sessionId signerId →
        signerId ∉ roast.responsiveSigners) ∧
      (∀ first second signerId, roast.Unanswered first signerId →
        roast.Unanswered second signerId → first = second) ∧
      ∀ first second signerId commitments, roast.Places first signerId commitments →
        roast.Places second signerId commitments → first = second := by
  have exclusive := Machine.run_invariant step Fresh (fun ledger => Exclusive ledger.roast)
    step_exclusive _ calls (Exclusive.new threshold pubkeyPackage) fresh
  have placed := Machine.run_invariant step Fresh
    (fun ledger => Placed ledger.roast ledger.published) step_placed _ calls
    (Placed.new threshold pubkeyPackage) fresh
  exact ⟨exclusive.busy, exclusive.unique, placed.once⟩

/-! ### An executable coordinator -/

instance : DecidableEq Transparent.frost.Commitments := inferInstanceAs (DecidableEq Nat)

def numbered (number : Nat) : Transparent.frost.Commitments := number

def called (calls : List (Call Transparent.frost)) : Ledger Transparent.frost :=
  Machine.run step (new 2 (Transparent.fill 32 9)) calls

def orderly : List (Call Transparent.frost) :=
  [.registerCommitments 1 [(⟨5, 1⟩, numbered 10), (⟨5, 2⟩, numbered 11)],
    .registerCommitments 2 [(⟨6, 1⟩, numbered 20)], .trySpawnSession [],
    .registerCommitments 3 [(⟨7, 1⟩, numbered 30)], .registerCommitments 4 [(⟨8, 1⟩, numbered 40)],
    .trySpawnSession [], .receiveShare 1 1 (0 : Nat) (some (⟨5, 3⟩, numbered 12)),
    .receiveShare 1 2 (0 : Nat) (some (⟨6, 2⟩, numbered 21)), .trySpawnSession []]

/-- The shares of the first session come when the second one is out, and free their signers for a
third. -/
theorem late_share_frees_once :
    Machine.Admissible step Fresh (new 2 (Transparent.fill 32 9)) orderly ∧
      1 ∉ (called orderly).roast.responsiveSigners := by
  have fresh : Machine.Admissible step Fresh (new 2 (Transparent.fill 32 9)) orderly := by
    decide +kernel
  have waits : (called orderly).roast.Unanswered 3 1 := by
    decide +kernel
  exact ⟨fresh, (@one_session_one_package Transparent.frost 2 _ orderly fresh).1 3 1 waits⟩

def repeated : List (Call Transparent.frost) :=
  [.registerCommitments 1 [(⟨5, 1⟩, numbered 10), (⟨5, 2⟩, numbered 11)],
    .registerCommitments 2 [(⟨6, 1⟩, numbered 20), (⟨6, 2⟩, numbered 21)],
    .registerCommitments 3 [(⟨7, 1⟩, numbered 30), (⟨7, 2⟩, numbered 31)], .trySpawnSession [],
    .receiveShare 1 1 (0 : Nat) (some (⟨5, 3⟩, numbered 12)), .receiveShare 1 2 (0 : Nat) none,
    .trySpawnSession [], .receiveShare 1 1 (0 : Nat) (some (⟨5, 3⟩, numbered 12))]

/-- Signer 1 is free although the second session waits for it, a third one takes it, and the
commitment that came with the share is in the packages of the third and the fourth. -/
theorem repeated_share_frees_busy_signer :
    ((called repeated).roast.Unanswered 2 1 ∧ 1 ∈ (called repeated).roast.responsiveSigners) ∧
      ((called (repeated ++ [.trySpawnSession []])).roast.Unanswered 2 1 ∧
        (called (repeated ++ [.trySpawnSession []])).roast.Unanswered 3 1) ∧
      (called (repeated ++ [.trySpawnSession [], .receiveShare 2 1 (0 : Nat) none,
          .receiveShare 3 3 (0 : Nat) none, .trySpawnSession []])).roast.Places 3 1
            (numbered 12) ∧
        (called (repeated ++ [.trySpawnSession [], .receiveShare 2 1 (0 : Nat) none,
          .receiveShare 3 3 (0 : Nat) none, .trySpawnSession []])).roast.Places 4 1
            (numbered 12) := by
  decide +kernel

end Ledger

end Yip.Ca
