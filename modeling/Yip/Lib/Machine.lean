/-
This file is the theory of runs that every safety argument of the development uses.
-/

import Mathlib.Data.List.Basic
import Mathlib.Data.List.Induction

namespace Machine

open List

variable {State Event : Type*} (step : State → Event → State)

def run (state : State) (events : List Event) : State :=
  events.foldl step state

@[simp]
theorem run_nil (state : State) : run step state [] = state := rfl

@[simp]
theorem run_cons (state : State) (event : Event) (rest : List Event) :
    run step state (event :: rest) = run step (step state event) rest := rfl

theorem run_append (state : State) (first second : List Event) :
    run step state (first ++ second) = run step (run step state first) second := by
  simp [run]

/-- Every event meets the guard in the state it finds. -/
def Admissible (guard : State → Event → Prop) : State → List Event → Prop
  | _, [] => True
  | state, event :: rest => guard state event ∧ Admissible guard (step state event) rest

instance Admissible.decidable (guard : State → Event → Prop)
    [∀ state event, Decidable (guard state event)] :
    ∀ (state : State) (events : List Event), Decidable (Admissible step guard state events)
  | _, [] => isTrue trivial
  | state, event :: rest =>
    have := Admissible.decidable guard (step state event) rest
    inferInstanceAs (Decidable (guard state event ∧ Admissible step guard (step state event) rest))

variable (guard : State → Event → Prop)

theorem admissible_append (state : State) (first second : List Event) :
    Admissible step guard state (first ++ second) ↔
      Admissible step guard state first ∧ Admissible step guard (run step state first) second := by
  induction first generalizing state with
  | nil => simp [Admissible]
  | cons event rest ih =>
    simp only [cons_append, Admissible, run_cons, ih, and_assoc]

variable {state : State}

theorem Admissible.imp {guard weaker : State → Event → Prop}
    (implies : ∀ state event, guard state event → weaker state event) {events : List Event}
    (admissible : Admissible step guard state events) : Admissible step weaker state events := by
  induction events generalizing state with
  | nil => trivial
  | cons event rest ih =>
    exact ⟨implies state event admissible.1, ih admissible.2⟩

theorem admissible_of_forall (allowed : Event → Prop) (state : State) (events : List Event)
    (all : ∀ event ∈ events, allowed event) :
    Admissible step (fun _ event => allowed event) state events := by
  induction events generalizing state with
  | nil => trivial
  | cons event rest ih =>
    exact ⟨all event mem_cons_self,
      ih _ fun later member => all later (mem_cons_of_mem _ member)⟩

theorem run_invariant (invariant : State → Prop)
    (preserved : ∀ state event, invariant state → guard state event → invariant (step state event))
    (state : State) (events : List Event) (holds : invariant state)
    (admissible : Admissible step guard state events) : invariant (run step state events) := by
  induction events generalizing state with
  | nil => exact holds
  | cons event rest ih =>
    exact ih _ (preserved state event holds admissible.1) admissible.2

/-! ### What happened in a run -/

/-- What happens at this index of the run. -/
def Happens (state : State) (events : List Event) (index : Nat) (what : State → Event → Prop) :
    Prop :=
  ∃ event, events[index]? = some event ∧ what (run step state (events.take index)) event

theorem happens_append_singleton {events : List Event} {event : Event} {index : Nat}
    {what : State → Event → Prop} :
    Happens step state (events ++ [event]) index what ↔
      Happens step state events index what ∨
        (index = events.length ∧ what (run step state events) event) := by
  unfold Happens
  rcases Nat.lt_trichotomy index events.length with before | rfl | behind
  · rw [getElem?_append_left before, take_append_of_le_length (Nat.le_of_lt before)]
    exact (or_iff_left fun last => Nat.ne_of_lt before last.1).symm
  · rw [getElem?_append_right (Nat.le_refl _), take_left,
      getElem?_eq_none (Nat.le_refl _)]
    simp
  · rw [getElem?_eq_none (by simp; omega), getElem?_eq_none (Nat.le_of_lt behind)]
    simp only [reduceCtorEq, false_and, exists_false, false_or, false_iff, not_and]
    exact fun last => absurd last (Nat.ne_of_gt behind)

theorem run_flag_iff (flag : State → Prop) {sets clears : State → Event → Prop}
    (changes : ∀ state event, flag (step state event) ↔
      sets state event ∨ (flag state ∧ ¬ clears state event)) (unset : ¬ flag state)
    (events : List Event) :
    flag (run step state events) ↔ ∃ index, Happens step state events index sets ∧
      ∀ later, index < later → ¬ Happens step state events later clears := by
  induction events using reverseRecOn with
  | nil =>
    refine iff_of_false unset ?_
    rintro ⟨index, ⟨event, taken, -⟩, -⟩
    cases taken
  | append_singleton events event ih =>
    have position : ∀ {index what}, Happens step state events index what →
        index < events.length := by
      rintro index what ⟨event, taken, -⟩
      exact (List.getElem?_eq_some_iff.mp taken).1
    rw [run_append, run_cons, run_nil, changes, ih]
    simp only [happens_append_singleton]
    constructor
    · rintro (set | ⟨⟨index, set, kept⟩, uncleared⟩)
      · refine ⟨events.length, Or.inr ⟨rfl, set⟩, fun later behind cleared => ?_⟩
        rcases cleared with before | ⟨last, -⟩
        · exact Nat.lt_asymm behind (position before)
        · exact Nat.ne_of_gt behind last
      · refine ⟨index, Or.inl set, fun later behind cleared => ?_⟩
        rcases cleared with before | ⟨-, now⟩
        · exact kept later behind before
        · exact uncleared now
    · rintro ⟨index, set | ⟨last, set⟩, kept⟩
      · refine Or.inr ⟨⟨index, set, fun later behind cleared => kept later behind (Or.inl cleared)⟩,
          fun cleared => kept events.length (position set) (Or.inr ⟨rfl, cleared⟩)⟩
      · exact Or.inl set

end Machine
