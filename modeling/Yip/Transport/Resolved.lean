/-
This file is about what the loss detector knows as resolved: the counters below the watermark or
in the set above it.
-/

import Yip.Transport.Nacks

namespace Yip.Transport

open List

/-! ### The sorted set -/

variable {entries : List Nat}

theorem mem_insertSorted {counter other : Nat} :
    other ∈ insertSorted counter entries ↔ other = counter ∨ other ∈ entries := by
  induction entries with
  | nil => simp [insertSorted]
  | cons head rest ih =>
    rw [insertSorted]
    split_ifs with before same
    · exact mem_cons
    · subst same
      rw [mem_cons]
      exact ⟨Or.inr, fun either => either.elim Or.inl id⟩
    · rw [mem_cons, mem_cons, ih]
      exact or_left_comm

theorem sorted_insertSorted (counter : Nat) (sorted : entries.Pairwise (· < ·)) :
    (insertSorted counter entries).Pairwise (· < ·) := by
  induction entries with
  | nil => exact pairwise_singleton _ _
  | cons head rest ih =>
    obtain ⟨above, sortedRest⟩ := pairwise_cons.mp sorted
    rw [insertSorted]
    split_ifs with before same
    · refine pairwise_cons.mpr ⟨forall_mem_cons.mpr ⟨before, fun other later => ?_⟩,
        sorted⟩
      exact before.trans (above other later)
    · exact sorted
    · refine pairwise_cons.mpr ⟨fun other member => ?_, ih sortedRest⟩
      rcases mem_insertSorted.mp member with rfl | later
      · exact (Nat.lt_or_gt_of_ne same).resolve_left before
      · exact above other later

theorem length_keepLargest_le {α : Type} (bound : Nat) (entries : List α) :
    (keepLargest bound entries).length ≤ bound := by
  rw [keepLargest, length_drop]
  omega

structure Advanced (watermark : Nat) (entries : List Nat) (moved : Nat × List Nat) : Prop where
  up : watermark ≤ moved.1
  fits : moved.1 ≤ 2 ^ 64 - 1
  fewer : moved.2.Sublist entries
  above : ∀ entry ∈ moved.2, moved.1 ≤ entry
  passes : ∀ other, watermark ≤ other → other ∉ entries → moved.1 ≤ other
  kept : moved.1 < 2 ^ 64 - 1 → ∀ other, other < watermark ∨ other ∈ entries →
    other < moved.1 ∨ other ∈ moved.2

theorem advanced_advanceOver (rounds : Nat) {watermark : Nat} (fits : watermark ≤ 2 ^ 64 - 1)
    (sorted : entries.Pairwise (· < ·)) (above : ∀ entry ∈ entries, watermark ≤ entry) :
    Advanced watermark entries (advanceOver rounds watermark entries) := by
  induction rounds generalizing watermark entries with
  | zero =>
    exact ⟨Nat.le_refl _, fits, List.Sublist.refl _, above, fun _ under _ => under,
      fun _ _ known => known⟩
  | succ rounds ih =>
    rw [advanceOver]
    by_cases reached : entries.contains watermark = true
    · rw [if_pos reached]
      have member : watermark ∈ entries := contains_iff_mem.mp reached
      have removed : ∀ entry ∈ entries.erase watermark, watermark < entry := by
        intro entry inside
        have other := (List.Nodup.mem_erase_iff (sorted.imp Nat.ne_of_lt)).mp inside
        exact Nat.lt_of_le_of_ne (above entry other.2) other.1.symm
      have next := ih (Nat.min_le_right (watermark + 1) (2 ^ 64 - 1))
        (sorted.sublist erase_sublist)
        fun entry inside => (Nat.min_le_left _ _).trans (removed entry inside)
      refine ⟨Nat.le_trans (by omega) next.up, next.fits, next.fewer.trans erase_sublist,
        next.above, fun other under absent => ?_, fun short other known => ?_⟩
      · have different : other ≠ watermark := fun same => absent (same ▸ member)
        exact next.passes other (by omega) fun inside => absent (mem_of_mem_erase inside)
      · have early := Nat.lt_of_le_of_lt next.up short
        refine next.kept short other ?_
        by_cases same : other = watermark
        · exact Or.inl (by omega)
        · exact known.imp (by omega) (mem_erase_of_ne same).mpr
    · rw [if_neg reached]
      exact ⟨Nat.le_refl _, fits, List.Sublist.refl _, above, fun _ under _ => under,
        fun _ _ known => known⟩

namespace LossDetector

/-! ### Resolving one counter -/

def resolve (detector : LossDetector) (counter : Nat) : LossDetector :=
  { detector with pending := detector.pending.filter (·.1 ≠ counter) }.markResolved counter

def uncut (detector : LossDetector) (counter : Nat) : Nat × List Nat :=
  let entered := insertSorted counter detector.resolvedSet
  advanceOver entered.length detector.resolvedBelow entered

theorem markResolved_eq (detector : LossDetector) (counter : Nat) :
    detector.markResolved counter =
      if counter < detector.resolvedBelow then detector
      else
        { detector with
          resolvedBelow := (detector.uncut counter).1
          resolvedSet := keepLargest detector.window (detector.uncut counter).2 } := rfl

/-- Nothing is both missing and settled, and both sets are bounded. -/
structure Consistent (detector : LossDetector) : Prop where
  watermark : detector.resolvedBelow ≤ 2 ^ 64 - 1
  sorted : detector.resolvedSet.Pairwise (· < ·)
  above : ∀ counter ∈ detector.resolvedSet, detector.resolvedBelow ≤ counter
  unresolved : ∀ entry ∈ detector.pending,
    detector.resolvedBelow ≤ entry.1 ∧ entry.1 ∉ detector.resolvedSet
  pendingBound : detector.pending.length ≤ detector.window
  resolvedBound : detector.resolvedSet.length ≤ detector.window

variable (graceMs window : Nat)

theorem consistent_new : (new graceMs window).Consistent where
  watermark := Nat.zero_le _
  sorted := List.Pairwise.nil
  above := fun _ member => absurd member not_mem_nil
  unresolved := fun _ member => absurd member not_mem_nil
  pendingBound := Nat.zero_le _
  resolvedBound := Nat.zero_le _

variable {counter : Nat}

variable {detector : LossDetector}

theorem isResolved_eq_false_iff :
    detector.isResolved counter = false ↔
      detector.resolvedBelow ≤ counter ∧ counter ∉ detector.resolvedSet := by
  simp [isResolved]

theorem isResolved_iff :
    detector.isResolved counter = true ↔
      counter < detector.resolvedBelow ∨ counter ∈ detector.resolvedSet := by
  simp [isResolved]

namespace Consistent

variable {detector : LossDetector} (consistent : detector.Consistent)

include consistent

theorem advanced_uncut {counter : Nat} (under : detector.resolvedBelow ≤ counter) :
    Advanced detector.resolvedBelow (insertSorted counter detector.resolvedSet)
      (detector.uncut counter) := by
  refine advanced_advanceOver _ consistent.watermark
    (sorted_insertSorted counter consistent.sorted) fun entry member => ?_
  rcases mem_insertSorted.mp member with rfl | old
  · exact under
  · exact consistent.above entry old

theorem markResolved {counter : Nat} (taken : counter ∉ detector.pending.map Prod.fst) :
    (detector.markResolved counter).Consistent := by
  rw [markResolved_eq]
  split_ifs with below
  · exact consistent
  · have advanced := consistent.advanced_uncut (Nat.le_of_not_lt below)
    have cut := (keepLargest_sublist detector.window (detector.uncut counter).2)
    refine ⟨advanced.fits, ?_, fun entry member => advanced.above entry (cut.subset member), ?_,
      consistent.pendingBound, length_keepLargest_le _ _⟩
    · exact (sorted_insertSorted counter consistent.sorted).sublist (cut.trans advanced.fewer)
    · intro entry member
      obtain ⟨under, absent⟩ := consistent.unresolved entry member
      have unmarked : entry.1 ∉ insertSorted counter detector.resolvedSet := by
        intro marked
        rcases mem_insertSorted.mp marked with same | old
        · exact taken (same ▸ mem_map_of_mem member)
        · exact absent old
      exact ⟨advanced.passes _ under unmarked,
        fun inside => unmarked ((cut.trans advanced.fewer).subset inside)⟩

theorem fewer {pending : List (Nat × Nat)} (sub : pending.Sublist detector.pending) :
    { detector with pending := pending }.Consistent where
  watermark := consistent.watermark
  sorted := consistent.sorted
  above := consistent.above
  unresolved := fun entry member => consistent.unresolved entry (sub.subset member)
  pendingBound := sub.length_le.trans consistent.pendingBound
  resolvedBound := consistent.resolvedBound

theorem resolve (counter : Nat) : (detector.resolve counter).Consistent := by
  refine (consistent.fewer filter_sublist).markResolved ?_
  intro member
  obtain ⟨entry, kept, same⟩ := mem_map.mp member
  have different : entry.1 ≠ counter := by simpa using (mem_filter.mp kept).2
  exact different same

theorem resolveAll (counters : List Nat) : (detector.resolveAll counters).Consistent := by
  induction counters generalizing detector with
  | nil => exact consistent
  | cons counter rest ih => exact ih (consistent.resolve counter)

theorem onSeen (counter nowMs : Nat) : (detector.onSeen counter nowMs).Consistent := by
  rcases onSeen_cases detector counter nowMs with same | ⟨gap, own, between, entered⟩
  · rw [same]
    exact consistent
  · rw [entered]
    refine ⟨consistent.watermark, consistent.sorted, consistent.above, fun entry member => ?_,
      length_keepLargest_le _ _, consistent.resolvedBound⟩
    rcases mem_orInsert ((keepLargest_sublist _ _).subset member) with rfl | folded
    · exact isResolved_eq_false_iff.mp own
    · rcases mem_foldl_orInsert folded with implied | old
      · exact isResolved_eq_false_iff.mp (between _ implied).1
      · exact consistent.unresolved entry old

theorem step (event : Event) : (detector.step event).Consistent := by
  cases event with
  | seen counter nowMs => exact consistent.onSeen counter nowMs
  | delivered counter =>
    have resolved := consistent.resolve counter
    exact ⟨resolved.watermark, resolved.sorted, resolved.above, resolved.unresolved,
      resolved.pendingBound, resolved.resolvedBound⟩
  | report nowMs =>
    have resolved := consistent.resolveAll (detector.overdue nowMs)
    exact ⟨resolved.watermark, resolved.sorted, resolved.above, resolved.unresolved,
      resolved.pendingBound, resolved.resolvedBound⟩

theorem resolvedBelow_le_resolve (counter : Nat) :
    detector.resolvedBelow ≤ (detector.resolve counter).resolvedBelow := by
  rw [LossDetector.resolve, markResolved_eq]
  split_ifs with below
  · exact Nat.le_refl _
  · exact (consistent.advanced_uncut (Nat.le_of_not_lt below)).up

theorem resolvedBelow_le_resolveAll (counters : List Nat) :
    detector.resolvedBelow ≤ (detector.resolveAll counters).resolvedBelow := by
  induction counters generalizing detector with
  | nil => exact Nat.le_refl _
  | cons counter rest ih =>
    exact (consistent.resolvedBelow_le_resolve counter).trans
      (ih (consistent.resolve counter))

end Consistent

theorem onSeen_resolved (detector : LossDetector) (counter nowMs : Nat) :
    (detector.onSeen counter nowMs).resolvedBelow = detector.resolvedBelow ∧
      (detector.onSeen counter nowMs).resolvedSet = detector.resolvedSet := by
  rcases onSeen_cases detector counter nowMs with same | ⟨gap, -, -, entered⟩
  · rw [same]
    exact ⟨rfl, rfl⟩
  · rw [entered]
    exact ⟨rfl, rfl⟩

theorem Consistent.resolvedBelow_le_step (consistent : detector.Consistent) (event : Event) :
    detector.resolvedBelow ≤ (detector.step event).resolvedBelow := by
  cases event with
  | seen counter nowMs => exact (onSeen_resolved detector counter nowMs).1.ge
  | delivered counter => exact consistent.resolvedBelow_le_resolve counter
  | report nowMs => exact consistent.resolvedBelow_le_resolveAll (detector.overdue nowMs)

theorem resolve_window (detector : LossDetector) (counter : Nat) :
    (detector.resolve counter).window = detector.window := by
  rw [resolve, markResolved_eq]
  split_ifs <;> rfl

theorem step_window (detector : LossDetector) (event : Event) :
    (detector.step event).window = detector.window := by
  cases event with
  | seen counter nowMs =>
    show (detector.onSeen counter nowMs).window = detector.window
    rcases onSeen_cases detector counter nowMs with same | ⟨gap, -, -, entered⟩
    · rw [same]
    · rw [entered]
  | delivered counter => exact resolve_window detector counter
  | report nowMs =>
    show (detector.resolveAll (detector.overdue nowMs)).window = detector.window
    generalize detector.overdue nowMs = counters
    induction counters generalizing detector with
    | nil => rfl
    | cons counter rest ih =>
      exact (ih (detector.resolve counter)).trans (resolve_window detector counter)

theorem consistent_run (events : List Event) :
    (Machine.run step (new graceMs window) events).Consistent ∧
      (Machine.run step (new graceMs window) events).window = window :=
  Machine.run_invariant step (fun _ _ => True)
    (fun detector => detector.Consistent ∧ detector.window = window)
    (fun detector event holds _ => ⟨holds.1.step event, (step_window detector event).trans holds.2⟩)
    _ events ⟨consistent_new graceMs window, rfl⟩
    (Machine.admissible_of_forall step (fun _ => True) _ _ fun _ _ => trivial)

/-! ### What is not forgotten -/

def HasRoomFor (detector : LossDetector) (counter : Nat) : Prop :=
  counter < detector.resolvedBelow ∨ (detector.uncut counter).2.length ≤ detector.window

instance (detector : LossDetector) (counter : Nat) : Decidable (detector.HasRoomFor counter) :=
  inferInstanceAs (Decidable (_ ∨ _))

def EvictsNothing (detector : LossDetector) : Event → Prop
  | .seen _ _ => True
  | .delivered counter => detector.HasRoomFor counter
  | .report nowMs => Machine.Admissible resolve HasRoomFor detector (detector.overdue nowMs)

instance (detector : LossDetector) (event : Event) :
    Decidable (detector.EvictsNothing event) := by
  unfold EvictsNothing
  split <;> infer_instance

/-- The event forgets no settled counter. -/
def Retains (detector : LossDetector) (event : Event) : Prop :=
  detector.EvictsNothing event ∧ (detector.step event).resolvedBelow < 2 ^ 64 - 1

instance (detector : LossDetector) (event : Event) : Decidable (detector.Retains event) :=
  inferInstanceAs (Decidable (_ ∧ _))

namespace Consistent

variable {detector : LossDetector} (consistent : detector.Consistent)

include consistent

theorem isResolved_resolve {counter other : Nat} (room : detector.HasRoomFor counter)
    (short : (detector.resolve counter).resolvedBelow < 2 ^ 64 - 1)
    (known : detector.isResolved other = true ∨ other = counter) :
    (detector.resolve counter).isResolved other = true := by
  rw [isResolved_iff] at known ⊢
  rw [LossDetector.resolve, markResolved_eq] at short ⊢
  split_ifs at short ⊢ with below
  · exact known.elim id fun same => Or.inl (same ▸ below)
  · have advanced := consistent.advanced_uncut (Nat.le_of_not_lt below)
    have whole : keepLargest detector.window (detector.uncut counter).2 =
        (detector.uncut counter).2 := by
      rw [keepLargest, Nat.sub_eq_zero_of_le (room.resolve_left below), drop_zero]
    have entered : other < detector.resolvedBelow ∨
        other ∈ insertSorted counter detector.resolvedSet := by
      rw [mem_insertSorted]
      exact known.elim (fun old => old.imp_right Or.inr) fun same => Or.inr (Or.inl same)
    have kept := advanced.kept short other entered
    rwa [← whole] at kept

theorem isResolved_resolveAll {counters : List Nat} {other : Nat}
    (room : Machine.Admissible LossDetector.resolve HasRoomFor detector counters)
    (short : (detector.resolveAll counters).resolvedBelow < 2 ^ 64 - 1)
    (known : detector.isResolved other = true ∨ other ∈ counters) :
    (detector.resolveAll counters).isResolved other = true := by
  induction counters generalizing detector with
  | nil => exact known.resolve_right not_mem_nil
  | cons counter rest ih =>
    have next := consistent.resolve counter
    have early := Nat.lt_of_le_of_lt (next.resolvedBelow_le_resolveAll rest) short
    refine ih next room.2 short ?_
    rcases known with old | named
    · exact Or.inl (consistent.isResolved_resolve room.1 early (Or.inl old))
    · rcases mem_cons.mp named with same | later
      · exact Or.inl (consistent.isResolved_resolve room.1 early (Or.inr same))
      · exact Or.inr later

theorem isResolved_step {event : Event} (retains : detector.Retains event) {other : Nat}
    (known : detector.isResolved other = true ∨ event = .delivered other ∨
      ∃ nowMs, event = .report nowMs ∧ other ∈ detector.overdue nowMs) :
    (detector.step event).isResolved other = true := by
  obtain ⟨room, short⟩ := retains
  cases event with
  | seen counter nowMs =>
    have old : detector.isResolved other = true := by simpa using known
    obtain ⟨below, set⟩ := onSeen_resolved detector counter nowMs
    rw [isResolved_iff] at old ⊢
    show other < (detector.onSeen counter nowMs).resolvedBelow ∨
      other ∈ (detector.onSeen counter nowMs).resolvedSet
    rwa [below, set]
  | delivered counter =>
    refine consistent.isResolved_resolve room short (known.imp_right fun new => ?_)
    rcases new with same | ⟨nowMs, same, -⟩
    · exact (Event.delivered.inj same).symm
    · cases same
  | report nowMs =>
    refine consistent.isResolved_resolveAll room short (known.imp_right fun new => ?_)
    rcases new with same | ⟨nowMs, same, overdue⟩
    · cases same
    · cases same
      exact overdue

end Consistent

theorem isResolved_run (consistent : detector.Consistent)
    {events : List Event} (retains : Machine.Admissible step Retains detector events) {other : Nat}
    (known : detector.isResolved other = true ∨ Event.delivered other ∈ events ∨
      ∃ report ∈ detector.reports events, other ∈ report.missing) :
    (Machine.run step detector events).isResolved other = true := by
  induction events generalizing detector with
  | nil =>
    refine known.resolve_right ?_
    rintro (delivered | ⟨report, member, -⟩)
    · cases delivered
    · cases member
  | cons event rest ih =>
    have next := @Consistent.isResolved_step detector consistent event retains.1 other
    refine ih (consistent.step event) retains.2 ?_
    rcases known with old | delivered | ⟨report, member, missing⟩
    · exact Or.inl (next (Or.inl old))
    · rcases mem_cons.mp delivered with same | later
      · exact Or.inl (next (Or.inr (Or.inl same.symm)))
      · exact Or.inr (Or.inl later)
    · cases event with
      | seen counter nowMs => exact Or.inr (Or.inr ⟨report, member, missing⟩)
      | delivered counter => exact Or.inr (Or.inr ⟨report, member, missing⟩)
      | report nowMs =>
        rcases mem_cons.mp member with rfl | later
        · rw [report_missing] at missing
          exact Or.inl (next (Or.inr (Or.inr ⟨nowMs, rfl, mem_of_mem_take missing⟩)))
        · exact Or.inr (Or.inr ⟨report, later, missing⟩)

theorem Consistent.not_isResolved_of_missing (consistent : detector.Consistent) {nowMs : Nat}
    (missing : counter ∈ (detector.report nowMs).2.missing) :
    detector.isResolved counter = false := by
  rw [report_missing] at missing
  obtain ⟨entry, pending, rfl⟩ := mem_map.mp (mem_of_mem_take missing)
  exact isResolved_eq_false_iff.mpr (consistent.unresolved entry (mem_of_mem_filter pending))

/-- In a run that retains what is resolved, no counter is reported after its delivery and none is
reported twice. In every run, nothing pending is in the resolved set, both are within the window,
the set is above the watermark, and the watermark never moves down. -/
theorem reported_once_and_bounded (graceMs window : Nat) (events : List Event) :
    let detector := Machine.run step (new graceMs window) events
    (Machine.Admissible step Retains (new graceMs window) events → ∀ nowMs,
        (detector.report nowMs).2.missing.Nodup ∧
        ∀ counter ∈ (detector.report nowMs).2.missing, Event.delivered counter ∉ events ∧
          ∀ report ∈ (new graceMs window).reports events, counter ∉ report.missing) ∧
      (∀ entry ∈ detector.pending, entry.1 ∉ detector.resolvedSet) ∧
      detector.pending.length ≤ window ∧ detector.resolvedSet.length ≤ window ∧
      (∀ counter ∈ detector.resolvedSet, detector.resolvedBelow ≤ counter) ∧
      ∀ event, detector.resolvedBelow ≤ (detector.step event).resolvedBelow := by
  intro detector
  obtain ⟨consistent, sameWindow⟩ := consistent_run graceMs window events
  refine ⟨?_, fun entry member => (consistent.unresolved entry member).2,
    consistent.pendingBound.trans sameWindow.le, consistent.resolvedBound.trans sameWindow.le,
    consistent.above, consistent.resolvedBelow_le_step⟩
  intro retains nowMs
  have resolved := @isResolved_run _ (consistent_new graceMs window) events retains
  refine ⟨?_, fun counter missing => ?_⟩
  · rw [report_missing]
    exact ((tracked_run graceMs window events).nodup_overdue nowMs).sublist (take_sublist _ _)
  · have unresolved : detector.isResolved counter ≠ true :=
      Bool.eq_false_iff.mp (consistent.not_isResolved_of_missing missing)
    exact ⟨fun delivered => unresolved (resolved (Or.inr (Or.inl delivered))),
      fun report member named => unresolved (resolved (Or.inr (Or.inr ⟨report, member, named⟩)))⟩

/-- Counters 1 and 2 are missing between 0 and 3. The first report names them, and 1 is delivered
after it; a report after that names the 4 that is missing since, and neither of them again. -/
theorem gap_reported_once :
    let events := [.seen 0 0, .seen 3 0, .delivered 0, .delivered 3, .report 40, .seen 5 50,
      .delivered 1, .delivered 5]
    let detector := Machine.run step (new 30 16) events
    Machine.Admissible step Retains (new 30 16) events ∧
      ((new 30 16).reports events).map LossReport.missing = [[1, 2]] ∧
      4 ∈ (detector.report 90).2.missing ∧ (detector.report 90).2.missing.Nodup ∧
      Event.delivered 4 ∉ events := by
  intro events detector
  have retains : Machine.Admissible step Retains (new 30 16) events := by decide +kernel
  have missing : 4 ∈ (detector.report 90).2.missing := by decide +kernel
  obtain ⟨distinct, never⟩ := (reported_once_and_bounded 30 16 events).1 retains 90
  exact ⟨retains, by decide +kernel, missing, distinct, (never 4 missing).1⟩

/-! ### The largest counter -/

theorem deliver_next (graceMs window delivered next : Nat) :
    let detector := { new graceMs window with delivered := delivered, resolvedBelow := next }
    detector.EvictsNothing (.delivered next) ∧
      detector.step (.delivered next) =
        { new graceMs window with
          delivered := min (delivered + 1) (2 ^ 32 - 1)
          resolvedBelow := min (next + 1) (2 ^ 64 - 1) } := by
  intro detector
  have moved : detector.uncut next = (min (next + 1) (2 ^ 64 - 1), []) := by
    simp [detector, uncut, new, insertSorted, advanceOver]
  constructor
  · right
    rw [moved]
    exact Nat.zero_le _
  · have resolved : detector.resolve next =
        { detector with resolvedBelow := min (next + 1) (2 ^ 64 - 1) } := by
      rw [resolve, markResolved_eq, if_neg (Nat.lt_irrefl next)]
      show { detector with
        resolvedBelow := (detector.uncut next).1
        resolvedSet := keepLargest window (detector.uncut next).2 } = _
      rw [moved, keepLargest, drop_nil]
      rfl
    show { detector.resolve next with
      delivered := min ((detector.resolve next).delivered + 1) (2 ^ 32 - 1) } = _
    rw [resolved]

theorem deliver_in_order (graceMs window count : Nat) (all : count ≤ 2 ^ 64) :
    let deliveries := (range count).map Event.delivered
    Machine.Admissible step EvictsNothing (new graceMs window) deliveries ∧
      Machine.run step (new graceMs window) deliveries =
        { new graceMs window with
          delivered := min count (2 ^ 32 - 1)
          resolvedBelow := min count (2 ^ 64 - 1) } := by
  induction count with
  | zero => exact ⟨trivial, rfl⟩
  | succ count ih =>
    obtain ⟨admissible, reached⟩ := ih (by omega)
    obtain ⟨keeps, next⟩ := deliver_next graceMs window (min count (2 ^ 32 - 1)) count
    rw [min_eq_left (show count ≤ 2 ^ 64 - 1 by omega)] at reached
    rw [show min (min count (2 ^ 32 - 1) + 1) (2 ^ 32 - 1) = min (count + 1) (2 ^ 32 - 1) by omega]
      at next
    simp only [range_succ, map_append, map_singleton]
    refine ⟨(Machine.admissible_append step EvictsNothing _ _ _).mpr ⟨admissible, ?_⟩, ?_⟩
    · rw [reached]
      exact ⟨keeps, trivial⟩
    · rw [Machine.run_append, reached]
      exact next

theorem forgotten_after_all {count : Nat} (all : count = 2 ^ 64) :
    let deliveries := (range count).map Event.delivered
    let later := [.seen (2 ^ 64 - 1) 0, .report 5, .seen (2 ^ 64 - 1) 6, .report 11]
    let detector := Machine.run step (new 5 4096) deliveries
    Event.delivered (2 ^ 64 - 1) ∈ deliveries ∧
      Machine.Admissible step EvictsNothing (new 5 4096) deliveries ∧
      Machine.Admissible step EvictsNothing detector later ∧
      (detector.reports later).map LossReport.missing = [[2 ^ 64 - 1], [2 ^ 64 - 1]] := by
  intro deliveries later detector
  obtain ⟨admissible, reached⟩ := deliver_in_order 5 4096 count all.le
  have last : detector =
      { new 5 4096 with delivered := 2 ^ 32 - 1, resolvedBelow := 2 ^ 64 - 1 } := by
    rw [min_eq_right (by omega), min_eq_right (by omega)] at reached
    exact reached
  refine ⟨mem_map_of_mem (mem_range.mpr (by omega)), admissible, ?_⟩
  rw [last]
  decide +kernel

/-- Every counter is delivered in order. Then the largest one is seen again, and although it was
delivered and nothing was evicted, it is reported as missing, and reported once more when it is
seen a third time. -/
theorem largest_counter_forgotten :
    let deliveries := (range (2 ^ 64)).map Event.delivered
    let later := [.seen (2 ^ 64 - 1) 0, .report 5, .seen (2 ^ 64 - 1) 6, .report 11]
    let detector := Machine.run step (new 5 4096) deliveries
    Event.delivered (2 ^ 64 - 1) ∈ deliveries ∧
      Machine.Admissible step EvictsNothing (new 5 4096) deliveries ∧
      Machine.Admissible step EvictsNothing detector later ∧
      (detector.reports later).map LossReport.missing = [[2 ^ 64 - 1], [2 ^ 64 - 1]] :=
  forgotten_after_all rfl

end LossDetector

end Yip.Transport
