/-
This file is about which missing counters reach the sender.
-/

import Yip.Lib.Machine
import Yip.Transport.Recovery

namespace Yip.Transport

open List

/-! ### Sorted entries -/

def KeysSorted (entries : List (Nat × Nat)) : Prop := (entries.map Prod.fst).Pairwise (· < ·)

variable {entries : List (Nat × Nat)}

theorem mem_orInsert {counter value : Nat} {entry : Nat × Nat}
    (member : entry ∈ orInsert counter value entries) :
    entry = (counter, value) ∨ entry ∈ entries := by
  induction entries with
  | nil => exact Or.inl (mem_singleton.mp member)
  | cons head rest ih =>
    obtain ⟨other, old⟩ := head
    simp only [orInsert] at member
    split_ifs at member with before same
    · exact mem_cons.mp member
    · exact Or.inr member
    · rcases mem_cons.mp member with first | later
      · exact Or.inr (mem_cons.mpr (Or.inl first))
      · exact (ih later).imp_right (mem_cons_of_mem _)

theorem KeysSorted.orInsert (sorted : KeysSorted entries) (counter value : Nat) :
    KeysSorted (orInsert counter value entries) := by
  induction entries with
  | nil => exact pairwise_singleton _ _
  | cons head rest ih =>
    obtain ⟨other, old⟩ := head
    obtain ⟨above, sortedRest⟩ := pairwise_cons.mp sorted
    rw [Transport.orInsert]
    split_ifs with before same
    · refine pairwise_cons.mpr ⟨forall_mem_cons.mpr ⟨before, fun key later => ?_⟩, sorted⟩
      exact before.trans (above key later)
    · exact sorted
    · refine pairwise_cons.mpr ⟨?_, ih sortedRest⟩
      intro key member
      obtain ⟨entry, inserted, rfl⟩ := mem_map.mp member
      rcases mem_orInsert inserted with rfl | old
      · exact (Nat.lt_or_gt_of_ne same).resolve_left before
      · exact above _ (mem_map_of_mem old)

theorem KeysSorted.sublist {fewer : List (Nat × Nat)} (sorted : KeysSorted entries)
    (sub : fewer.Sublist entries) : KeysSorted fewer :=
  List.Pairwise.sublist (sub.map Prod.fst) sorted

theorem keepLargest_sublist {α : Type} (bound : Nat) (entries : List α) :
    (keepLargest bound entries).Sublist entries :=
  drop_sublist _ _

namespace LossDetector

/-! ### What a call does -/

def overdue (detector : LossDetector) (nowMs : Nat) : List Nat :=
  (detector.pending.filter fun entry => detector.graceMs ≤ nowMs - entry.2).map Prod.fst

@[simp]
theorem markResolved_pending (detector : LossDetector) (counter : Nat) :
    (detector.markResolved counter).pending = detector.pending := by
  unfold markResolved
  split <;> rfl

@[simp]
theorem markResolved_highCounter (detector : LossDetector) (counter : Nat) :
    (detector.markResolved counter).highCounter = detector.highCounter := by
  unfold markResolved
  split <;> rfl

@[simp]
theorem markResolved_seenAny (detector : LossDetector) (counter : Nat) :
    (detector.markResolved counter).seenAny = detector.seenAny := by
  unfold markResolved
  split <;> rfl

theorem onSeen_cases (detector : LossDetector) (counter nowMs : Nat) :
    detector.onSeen counter nowMs = detector ∨
      ∃ gap : List Nat, detector.isResolved counter = false ∧
        (∀ implied ∈ gap, detector.isResolved implied = false ∧ detector.seenAny = true ∧
          detector.highCounter < implied ∧ implied < counter) ∧
        detector.onSeen counter nowMs =
          { detector with
            highCounter := if detector.seenAny then max detector.highCounter counter else counter
            seenAny := true
            pending := keepLargest detector.window (orInsert counter nowMs
              (gap.foldl (fun pending implied => orInsert implied nowMs pending)
                detector.pending)) } := by
  unfold onSeen
  by_cases resolved : detector.isResolved counter = true
  · exact Or.inl (if_pos resolved)
  rw [if_neg resolved]
  have open' : detector.isResolved counter = false := Bool.not_eq_true _ ▸ resolved
  cases seen : detector.seenAny with
  | false => exact Or.inr ⟨[], open', by simp, by simp [enforceWindow]⟩
  | true =>
    by_cases above : counter > detector.highCounter
    · refine Or.inr ⟨(range' (detector.highCounter + 1)
        (counter - (detector.highCounter + 1))).filter (!detector.isResolved ·), open', ?_, ?_⟩
      · intro implied member
        obtain ⟨inRange, unresolved⟩ := mem_filter.mp member
        have range := mem_range'_1.mp inRange
        exact ⟨by simpa using unresolved, rfl, by omega, by omega⟩
      · simp only [enforceWindow, foldl_filter, if_pos above, if_true, max_eq_right above.le,
          Bool.not_true, Bool.false_eq_true, if_false]
        congr 4
        funext pending implied
        cases detector.isResolved implied <;> rfl
    · refine Or.inr ⟨[], open', by simp, ?_⟩
      simp only [enforceWindow, foldl_nil, if_neg above, if_true, Bool.not_true,
        Bool.false_eq_true, if_false, seen, max_eq_left (Nat.le_of_not_lt above)]

def resolveAll (detector : LossDetector) (counters : List Nat) : LossDetector :=
  counters.foldl (fun detector c =>
    { detector with pending := detector.pending.filter (·.1 ≠ c) }.markResolved c) detector

theorem resolveAll_spec (detector : LossDetector) (counters : List Nat) :
    (detector.resolveAll counters).pending =
        detector.pending.filter (fun entry => entry.1 ∉ counters) ∧
      (detector.resolveAll counters).highCounter = detector.highCounter ∧
      (detector.resolveAll counters).seenAny = detector.seenAny := by
  induction counters generalizing detector with
  | nil => simp [resolveAll]
  | cons counter rest ih =>
    obtain ⟨pending, high, seen⟩ := ih
      ({ detector with pending := detector.pending.filter (·.1 ≠ counter) }.markResolved counter)
    refine ⟨?_, high.trans (markResolved_highCounter _ _), seen.trans (markResolved_seenAny _ _)⟩
    refine pending.trans ?_
    rw [markResolved_pending, filter_filter]
    refine filter_congr fun entry _ => ?_
    simp only [mem_cons, not_or, Bool.decide_and, Bool.and_comm, ne_eq]

theorem report_missing (detector : LossDetector) (nowMs : Nat) :
    (detector.report nowMs).2.missing = (detector.overdue nowMs).take maxNack := rfl

theorem report_fst (detector : LossDetector) (nowMs : Nat) :
    (detector.report nowMs).1 =
      { detector.resolveAll (detector.overdue nowMs) with delivered := 0 } := rfl

/-! ### Runs -/

inductive Event where
  | seen (counter nowMs : Nat)
  | delivered (counter : Nat)
  | report (nowMs : Nat)
  deriving DecidableEq, Repr

def step (detector : LossDetector) : Event → LossDetector
  | .seen counter nowMs => detector.onSeen counter nowMs
  | .delivered counter => detector.onDelivered counter
  | .report nowMs => (detector.report nowMs).1

def reports (detector : LossDetector) : List Event → List LossReport
  | [] => []
  | .report nowMs :: rest =>
    (detector.report nowMs).2 :: reports (detector.report nowMs).1 rest
  | event :: rest => reports (detector.step event) rest

structure Tracked (detector : LossDetector) : Prop where
  sorted : KeysSorted detector.pending
  below : ∀ entry ∈ detector.pending,
    detector.seenAny = true ∧ entry.1 ≤ detector.highCounter

/-- The counter was seen to be passed and waits for nothing. -/
def Passed (counter : Nat) (detector : LossDetector) : Prop :=
  detector.seenAny = true ∧ counter ≤ detector.highCounter ∧
    counter ∉ detector.pending.map Prod.fst

variable {other : LossDetector} (graceMs window : Nat)

theorem tracked_new : (new graceMs window).Tracked :=
  ⟨List.Pairwise.nil, by simp [new]⟩

variable {nowMs : Nat} {detector : LossDetector} {counter : Nat}

theorem mem_foldl_orInsert {gap : List Nat} {entries : List (Nat × Nat)} {entry : Nat × Nat}
    (member : entry ∈ gap.foldl (fun pending c => orInsert c nowMs pending) entries) :
    entry.1 ∈ gap ∨ entry ∈ entries := by
  induction gap generalizing entries with
  | nil => exact Or.inr member
  | cons implied rest ih =>
    rcases ih member with later | inserted
    · exact Or.inl (mem_cons_of_mem _ later)
    · rcases mem_orInsert inserted with rfl | old
      · exact Or.inl mem_cons_self
      · exact Or.inr old

theorem sorted_foldl_orInsert (nowMs : Nat) (gap : List Nat) {entries : List (Nat × Nat)}
    (sorted : KeysSorted entries) :
    KeysSorted (gap.foldl (fun pending c => orInsert c nowMs pending) entries) := by
  induction gap generalizing entries with
  | nil => exact sorted
  | cons implied rest ih =>
    exact ih (sorted.orInsert implied nowMs)

theorem onSeen_entries {entry : Nat × Nat}
    (member : entry ∈ (detector.onSeen counter nowMs).pending) :
    entry ∈ detector.pending ∨
      (detector.onSeen counter nowMs).seenAny = true ∧
        entry.1 ≤ (detector.onSeen counter nowMs).highCounter ∧
        (entry.1 = counter ∨ detector.seenAny = true ∧ detector.highCounter < entry.1) := by
  rcases onSeen_cases detector counter nowMs with same | ⟨gap, -, between, entered⟩
  · exact Or.inl (same ▸ member)
  · rw [entered] at member ⊢
    have high : counter ≤
        if detector.seenAny then max detector.highCounter counter else counter := by
      split
      · exact Nat.le_max_right _ _
      · exact Nat.le_refl _
    rcases mem_orInsert ((keepLargest_sublist _ _).subset member) with rfl | folded
    · exact Or.inr ⟨rfl, high, Or.inl rfl⟩
    · rcases mem_foldl_orInsert folded with implied | old
      · obtain ⟨-, seen, above, under⟩ := between _ implied
        exact Or.inr ⟨rfl, under.le.trans high, Or.inr ⟨seen, above⟩⟩
      · exact Or.inl old

theorem onSeen_highCounter (counter nowMs : Nat) (seen : detector.seenAny = true) :
    (detector.onSeen counter nowMs).seenAny = true ∧
      detector.highCounter ≤ (detector.onSeen counter nowMs).highCounter := by
  rcases onSeen_cases detector counter nowMs with same | ⟨gap, -, -, entered⟩
  · rw [same]
    exact ⟨seen, Nat.le_refl _⟩
  · rw [entered]
    refine ⟨rfl, ?_⟩
    simp only [seen, if_true]
    exact Nat.le_max_left _ _

theorem Tracked.fewer (tracked : detector.Tracked)
    (pending : other.pending.Sublist detector.pending)
    (high : other.highCounter = detector.highCounter) (seen : other.seenAny = detector.seenAny) :
    other.Tracked where
  sorted := tracked.sorted.sublist pending
  below := by
    intro entry member
    rw [high, seen]
    exact tracked.below entry (pending.subset member)

theorem Passed.fewer (passed : Passed counter detector)
    (pending : other.pending.Sublist detector.pending)
    (high : other.highCounter = detector.highCounter) (seen : other.seenAny = detector.seenAny) :
    Passed counter other :=
  ⟨seen ▸ passed.1, high ▸ passed.2.1,
    fun member => passed.2.2 ((pending.map Prod.fst).subset member)⟩

theorem step_fewer (detector : LossDetector) (event : Event)
    (unseen : ∀ counter nowMs, event ≠ .seen counter nowMs) :
    (detector.step event).pending.Sublist detector.pending ∧
      (detector.step event).highCounter = detector.highCounter ∧
      (detector.step event).seenAny = detector.seenAny := by
  cases event with
  | seen counter nowMs => exact absurd rfl (unseen counter nowMs)
  | delivered counter =>
    refine ⟨?_, markResolved_highCounter _ _, markResolved_seenAny _ _⟩
    exact (markResolved_pending _ _).symm ▸ filter_sublist
  | report nowMs =>
    obtain ⟨pending, high, seen⟩ := resolveAll_spec detector (detector.overdue nowMs)
    exact ⟨pending.symm ▸ filter_sublist, high, seen⟩

theorem Tracked.step (tracked : detector.Tracked) (event : Event) :
    (detector.step event).Tracked := by
  by_cases sight : ∃ counter nowMs, event = .seen counter nowMs
  · obtain ⟨counter, nowMs, rfl⟩ := sight
    constructor
    · change KeysSorted (detector.onSeen counter nowMs).pending
      rcases onSeen_cases detector counter nowMs with same | ⟨gap, -, -, entered⟩
      · rw [same]
        exact tracked.sorted
      · rw [entered]
        exact ((sorted_foldl_orInsert nowMs gap tracked.sorted).orInsert _ _).sublist
          (keepLargest_sublist _ _)
    · intro entry member
      rcases onSeen_entries member with old | ⟨seen, high, -⟩
      · obtain ⟨seen, high⟩ := tracked.below entry old
        obtain ⟨still, grows⟩ := onSeen_highCounter counter nowMs seen
        exact ⟨still, high.trans grows⟩
      · exact ⟨seen, high⟩
  · push Not at sight
    obtain ⟨pending, high, seen⟩ := step_fewer detector event sight
    exact tracked.fewer pending high seen

theorem Passed.step (passed : Passed counter detector) (event : Event)
    (unseen : ∀ nowMs, event ≠ .seen counter nowMs) : Passed counter (detector.step event) := by
  by_cases sight : ∃ other nowMs, event = .seen other nowMs
  · obtain ⟨other, nowMs, rfl⟩ := sight
    obtain ⟨still, grows⟩ := onSeen_highCounter other nowMs passed.1
    refine ⟨still, passed.2.1.trans grows, ?_⟩
    intro member
    obtain ⟨entry, inside, rfl⟩ := mem_map.mp member
    rcases onSeen_entries inside with old | ⟨-, -, rfl | ⟨-, above⟩⟩
    · exact passed.2.2 (mem_map_of_mem old)
    · exact unseen nowMs rfl
    · exact absurd passed.2.1 (Nat.not_le_of_lt above)
  · push Not at sight
    obtain ⟨pending, high, seen⟩ := step_fewer detector event sight
    exact passed.fewer pending high seen

theorem Passed.unreported (passed : Passed counter detector) (later : List Event)
    (unseen : ∀ nowMs, Event.seen counter nowMs ∉ later) :
    ∀ report ∈ detector.reports later, counter ∉ report.missing := by
  induction later generalizing detector with
  | nil => simp [reports]
  | cons event rest ih =>
    have next := ih
      (passed.step event fun nowMs same => unseen nowMs (same ▸ mem_cons_self))
      (fun nowMs member => unseen nowMs (mem_cons_of_mem _ member))
    cases event with
    | seen other nowMs => exact next
    | delivered other => exact next
    | report nowMs =>
      intro report member
      rcases mem_cons.mp member with rfl | afterwards
      · intro named
        have overdue := mem_of_mem_take (report_missing detector nowMs ▸ named)
        exact passed.2.2 ((filter_sublist.map Prod.fst).subset overdue)
      · exact next report afterwards

theorem Tracked.passed_of_overdue (tracked : detector.Tracked)
    (overdue : counter ∈ detector.overdue nowMs) : Passed counter (detector.report nowMs).1 := by
  obtain ⟨entry, pending, same⟩ := mem_map.mp overdue
  obtain ⟨seen, high⟩ := tracked.below entry (mem_of_mem_filter pending)
  obtain ⟨remaining, sameHigh, sameSeen⟩ := resolveAll_spec detector (detector.overdue nowMs)
  rw [report_fst]
  refine ⟨sameSeen.trans seen, (same ▸ high).trans sameHigh.ge, ?_⟩
  intro member
  obtain ⟨other, kept, rfl⟩ := mem_map.mp member
  have open' := of_mem_filter (remaining ▸ kept : other ∈ detector.pending.filter _)
  exact of_decide_eq_true open' overdue

theorem tracked_run (events : List Event) :
    (Machine.run step (new graceMs window) events).Tracked :=
  Machine.run_invariant step (fun _ _ => True) Tracked
    (fun _ event holds _ => holds.step event) _ events (tracked_new graceMs window)
    (Machine.admissible_of_forall step (fun _ => True) _ _ fun _ _ => trivial)

theorem Tracked.nodup_overdue (tracked : detector.Tracked) (nowMs : Nat) :
    (detector.overdue nowMs).Nodup :=
  (tracked.sorted.sublist filter_sublist).imp Nat.ne_of_lt

/-- In every run, a report names all overdue counters exactly when it has room for them; a counter
beyond the cap is named by no report again, unless a symbol of it arrives after all. -/
theorem overdue_reported_iff_room (graceMs window nowMs : Nat) (earlier : List Event) :
    let detector := Machine.run step (new graceMs window) earlier
    ((∀ counter ∈ detector.overdue nowMs, counter ∈ (detector.report nowMs).2.missing) ↔
        (detector.overdue nowMs).length ≤ maxNack) ∧
      (maxNack < (detector.overdue nowMs).length →
        ∃ counter ∈ detector.overdue nowMs, ∀ later : List Event,
          (∀ again, Event.seen counter again ∉ later) →
          ∀ report ∈ detector.reports (.report nowMs :: later), counter ∉ report.missing) := by
  intro detector
  have tracked : detector.Tracked := tracked_run graceMs window earlier
  have distinct : (detector.overdue nowMs).Nodup := tracked.nodup_overdue nowMs
  have cut : maxNack < (detector.overdue nowMs).length →
      ∃ counter ∈ detector.overdue nowMs, counter ∉ (detector.report nowMs).2.missing := by
    intro burst
    refine ⟨(detector.overdue nowMs)[maxNack], getElem_mem burst, ?_⟩
    rw [report_missing, mem_take_iff_getElem]
    rintro ⟨index, bound, same⟩
    have := (distinct.getElem_inj_iff).mp same
    omega
  refine ⟨⟨?_, ?_⟩, ?_⟩
  · intro named
    by_contra burst
    obtain ⟨counter, overdue, unnamed⟩ := cut (Nat.lt_of_not_le burst)
    exact unnamed (named counter overdue)
  · intro room counter overdue
    rwa [report_missing, take_of_length_le room]
  · intro burst
    obtain ⟨counter, overdue, unnamed⟩ := cut burst
    refine ⟨counter, overdue, fun later unseen => forall_mem_cons.mpr ⟨unnamed, ?_⟩⟩
    exact (tracked.passed_of_overdue overdue).unreported later unseen

/-- Counter 0 is seen and then counter 64, so that 65 counters are pending: the report at the end
of the grace period names 0 to 63, and 64 is resolved without ever being named, also when a symbol
of it arrives afterwards and the next report is asked for. -/
theorem burst_loses_nack :
    let detector := Machine.run step (new 30 4096) [.seen 0 0, .seen 64 1]
    64 ∈ detector.overdue 31 ∧
      (detector.reports [.report 31, .seen 64 32, .report 100, .seen 64 101, .report 200]).map
        LossReport.missing = [range 64, [], []] := by
  decide +kernel

end LossDetector

end Yip.Transport
