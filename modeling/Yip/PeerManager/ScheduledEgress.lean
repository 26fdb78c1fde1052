/-
This file models the queue of datagrams that leave with a jitter (`peer_manager/mod.rs`) and
follows it through any mix of entries and drains.
-/

import Mathlib.Data.List.TakeWhile
import Yip.Primitives

namespace Yip.PeerManager

open List

structure ScheduledDatagram where
  deliverAfterMs : Nat
  datagram : EgressDatagram
  deriving DecidableEq

def maxJitterQueue : Nat := 1024

abbrev Scheduled := List ScheduledDatagram

namespace Scheduled

def due (nowMs : Nat) (item : ScheduledDatagram) : Bool := item.deliverAfterMs ≤ nowMs

/-- What is due leaves, first from the front of the queue and then from behind it. -/
def drainScheduledEgress (queue : Scheduled) (nowMs : Nat) : Scheduled × Scheduled :=
  let (popped, left) := queue.span (due nowMs)
  if left.any (due nowMs) then
    let (removed, left) := left.partition (due nowMs)
    (popped ++ removed, left)
  else (popped, left)

def rposition (property : ScheduledDatagram → Bool) : Scheduled → Option Nat
  | [] => none
  | item :: rest =>
    match rposition property rest with
    | some position => some (position + 1)
    | none => if property item then some 0 else none

/-- Enters a datagram behind those released no later; a full queue gives up its first. -/
def queueScheduledEgress (queue : Scheduled) (dg : EgressDatagram) (deliverAfterMs : Nat) :
    Scheduled × Scheduled :=
  let (popped, queue) := if queue.length ≥ maxJitterQueue then queue.splitAt 1 else ([], queue)
  let idx := (rposition (due deliverAfterMs) queue).elim 0 (· + 1)
  (popped, queue.take idx ++ ⟨deliverAfterMs, dg⟩ :: queue.drop idx)

/-! ### One call -/

def Sorted (queue : Scheduled) : Prop :=
  queue.Pairwise fun first second => first.deliverAfterMs ≤ second.deliverAfterMs

variable {queue : Scheduled}

theorem drain_spec (sorted : queue.Sorted) (nowMs : Nat) :
    let result := queue.drainScheduledEgress nowMs
    result.1 ++ result.2 = queue ∧ (∀ item ∈ result.1, item.deliverAfterMs ≤ nowMs) ∧
      ∀ item ∈ result.2, nowMs < item.deliverAfterMs := by
  have split : queue.takeWhile (due nowMs) ++ queue.dropWhile (due nowMs) = queue :=
    takeWhile_append_dropWhile
  have later : ∀ item ∈ queue.dropWhile (due nowMs), due nowMs item = false := by
    rw [← split] at sorted
    have sorted := (pairwise_append.mp sorted).2.1
    cases shape : queue.dropWhile (due nowMs) with
    | nil => simp
    | cons front rest =>
      have first : due nowMs front = false := by
        simpa [shape] using head?_dropWhile_not (due nowMs) queue
      rw [shape] at sorted
      refine forall_mem_cons.mpr ⟨first, fun item behind => ?_⟩
      have order := (pairwise_cons.mp sorted).1 item behind
      simp only [due, decide_eq_false_iff_not, Nat.not_le] at first ⊢
      omega
  rw [drainScheduledEgress, span_eq_takeWhile_dropWhile]
  simp only [any_eq_true]
  rw [if_neg (by simpa using later)]
  refine ⟨split, fun item member => ?_,
    fun item member => Nat.not_le.mp (of_decide_eq_false (later item member))⟩
  have isDue : due nowMs item = true := mem_takeWhile_imp member
  exact of_decide_eq_true isDue

theorem rposition_splits (property : ScheduledDatagram → Bool)
    (closed : queue.Pairwise fun first second => property second → property first) :
    let idx := (rposition property queue).elim 0 (· + 1)
    (∀ item ∈ queue.take idx, property item = true) ∧
      ∀ item ∈ queue.drop idx, property item = false := by
  induction queue with
  | nil => simp
  | cons item rest ih =>
    obtain ⟨first, closed⟩ := pairwise_cons.mp closed
    have ⟨before, behind⟩ := ih closed
    rw [rposition]
    cases found : rposition property rest with
    | some position =>
      rw [found] at before behind
      refine ⟨forall_mem_cons.mpr ⟨?_, before⟩, behind⟩
      cases rest with
      | nil => cases found
      | cons second _ => exact first second mem_cons_self (before second mem_cons_self)
    | none =>
      rw [found] at behind
      by_cases own : property item = true
      · rw [if_pos own]
        exact ⟨by simpa using own, behind⟩
      · rw [if_neg own]
        exact ⟨by simp, forall_mem_cons.mpr ⟨Bool.eq_false_iff.mpr own, behind⟩⟩

theorem queue_spec (sorted : queue.Sorted) (bounded : queue.length ≤ maxJitterQueue)
    (dg : EgressDatagram) (deliverAfterMs : Nat) :
    let result := queue.queueScheduledEgress dg deliverAfterMs
    (result.1 = [] ∨ queue.length = maxJitterQueue ∧ result.1 = queue.take 1) ∧
      ∃ before behind, result.1 ++ (before ++ behind) = queue ∧
        result.2 = before ++ ⟨deliverAfterMs, dg⟩ :: behind ∧
        (∀ item ∈ before, item.deliverAfterMs ≤ deliverAfterMs) ∧
        (∀ item ∈ behind, deliverAfterMs < item.deliverAfterMs) ∧
        result.2.length ≤ maxJitterQueue := by
  have enters (left : Scheduled) (sorted : left.Sorted) (room : left.length < maxJitterQueue) :
      let idx := (rposition (due deliverAfterMs) left).elim 0 (· + 1)
      (∀ item ∈ left.take idx, item.deliverAfterMs ≤ deliverAfterMs) ∧
        (∀ item ∈ left.drop idx, deliverAfterMs < item.deliverAfterMs) ∧
        (left.take idx ++ ⟨deliverAfterMs, dg⟩ :: left.drop idx).length ≤ maxJitterQueue := by
    have ⟨before, behind⟩ := rposition_splits (due deliverAfterMs)
      (sorted.imp fun {first second} order isDue =>
        decide_eq_true (order.trans (of_decide_eq_true isDue)))
    refine ⟨fun item member => of_decide_eq_true (before item member),
      fun item member => Nat.not_le.mp (of_decide_eq_false (behind item member)), ?_⟩
    rw [length_append, length_cons, ← Nat.add_assoc, ← length_append,
      take_append_drop]
    exact room
  rw [queueScheduledEgress]
  by_cases full : queue.length ≥ maxJitterQueue
  · rw [if_pos full, splitAt_eq]
    have same := Nat.le_antisymm bounded full
    refine ⟨Or.inr ⟨same, rfl⟩, _, _, ?_, rfl, enters (queue.drop 1) ?_ ?_⟩
    · rw [take_append_drop, take_append_drop]
    · exact sorted.sublist (drop_sublist _ _)
    · rw [length_drop, same]
      decide
  · rw [if_neg full]
    exact ⟨Or.inl rfl, _, _, take_append_drop _ _, rfl,
      enters queue sorted (Nat.not_le.mp full)⟩

/-! ### Any run -/

inductive Event where
  | enter (dg : EgressDatagram) (deliverAfterMs : Nat)
  | drain (nowMs : Nat)

/-- The queue, and all that ever left and entered it. -/
structure History where
  queue : Scheduled
  emitted : Scheduled
  entered : Scheduled

def History.step (history : History) : Event → History
  | .enter dg deliverAfterMs =>
    let result := history.queue.queueScheduledEgress dg deliverAfterMs
    ⟨result.2, history.emitted ++ result.1, history.entered ++ [⟨deliverAfterMs, dg⟩]⟩
  | .drain nowMs =>
    let result := history.queue.drainScheduledEgress nowMs
    ⟨result.2, history.emitted ++ result.1, history.entered⟩

/-- The queue is in order and bounded, and datagrams of one release time leave as they entered. -/
structure History.Sound (history : History) : Prop where
  sorted : history.queue.Sorted
  bounded : history.queue.length ≤ maxJitterQueue
  stable : ∀ release,
    (history.emitted ++ history.queue).filter (·.deliverAfterMs = release) =
      history.entered.filter (·.deliverAfterMs = release)

variable {history : History}

theorem History.Sound.step (sound : history.Sound) (event : Event) :
    (history.step event).Sound := by
  cases event with
  | enter dg deliverAfterMs =>
    obtain ⟨-, before, behind, split, after, early, late, bounded⟩ :=
      queue_spec sound.sorted sound.bounded dg deliverAfterMs
    rw [History.step]
    generalize history.queue.queueScheduledEgress dg deliverAfterMs = result at *
    have sorted := sound.sorted
    rw [← split] at sorted
    obtain ⟨first, second, across⟩ := pairwise_append.mp (pairwise_append.mp sorted).2.1
    refine ⟨?_, bounded, fun release => ?_⟩
    · rw [after]
      refine pairwise_append.mpr ⟨first,
        pairwise_cons.mpr ⟨fun item member => (late item member).le, second⟩, ?_⟩
      exact fun item member => forall_mem_cons.mpr ⟨early item member, across item member⟩
    · have stable := sound.stable release
      rw [← split] at stable
      rw [after, @filter_append _ _ history.entered, ← stable]
      by_cases own : deliverAfterMs = release
      · have none : behind.filter (·.deliverAfterMs = release) = [] := by
          simp only [filter_eq_nil_iff, decide_eq_true_eq]
          exact fun item member same => Nat.ne_of_gt (late item member) (same.trans own.symm)
        simp [own, none]
      · simp [own]
  | drain nowMs =>
    obtain ⟨split, -, -⟩ := drain_spec sound.sorted nowMs
    rw [History.step]
    generalize history.queue.drainScheduledEgress nowMs = result at *
    have left : result.2.Sublist history.queue := split ▸ sublist_append_right _ _
    refine ⟨sound.sorted.sublist left, left.length_le.trans sound.bounded, fun release => ?_⟩
    have stable := sound.stable release
    rwa [← split, ← append_assoc] at stable

/-- At every point of a run the queue is sorted and within its cap, what has left and what waits is
what was entered, and what was entered for one time leaves in that order. A drain takes out all that
is due and nothing else; an entry only makes the first one leave, and only if the queue is full. -/
theorem schedule_sound (events : List Event) :
    let history := Machine.run History.step ⟨[], [], []⟩ events
    history.queue.Sorted ∧ history.queue.length ≤ maxJitterQueue ∧
      (history.emitted ++ history.queue).Perm history.entered ∧
      (∀ release, (history.emitted ++ history.queue).filter (·.deliverAfterMs = release) =
        history.entered.filter (·.deliverAfterMs = release)) ∧
      (∀ nowMs, let (popped, left) := history.queue.drainScheduledEgress nowMs
        (∀ item ∈ popped, item.deliverAfterMs ≤ nowMs) ∧
          ∀ item ∈ left, nowMs < item.deliverAfterMs) ∧
      ∀ dg deliverAfterMs, let (popped, _) := history.queue.queueScheduledEgress dg deliverAfterMs
        popped = [] ∨ history.queue.length = maxJitterQueue ∧ popped = history.queue.take 1 := by
  intro history
  have sound : history.Sound :=
    Machine.run_invariant History.step (fun _ _ => True) History.Sound
      (fun _ event sound _ => sound.step event) _ events
      ⟨List.Pairwise.nil, Nat.zero_le _, fun _ => rfl⟩
      (Machine.admissible_of_forall _ _ _ _ fun _ _ => trivial)
  refine ⟨sound.sorted, sound.bounded, perm_iff_count.mpr fun item => ?_, sound.stable,
    fun nowMs => (drain_spec sound.sorted nowMs).2,
    fun dg deliverAfterMs => (queue_spec sound.sorted sound.bounded dg deliverAfterMs).1⟩
  have same := congrArg (count item) (sound.stable item.deliverAfterMs)
  simpa only [count_filter, decide_true] using same

end Scheduled

end Yip.PeerManager
