/-
This file is the theory of items in a stream of symbols that arrives in pieces of any size: a reader
keeps what it has not used, and looks for the next item at the front of it.
-/

import Mathlib.Data.List.Basic

namespace Framing

open List

variable {Symbol Item : Type*}

/-- What a reader finds at the front of its buffer. -/
inductive Split (Symbol Item : Type*) where
  | more
  | bad
  | item (item : Item) (rest : List Symbol)

/-- Symbols arrive, or the next item is asked for. -/
inductive Op (Symbol : Type*) where
  | push (symbols : List Symbol)
  | next

def pushed : List (Op Symbol) → List Symbol
  | [] => []
  | .push symbols :: rest => symbols ++ pushed rest
  | .next :: rest => pushed rest

variable (split : List Symbol → Split Symbol Item)

def advance (buf : List Symbol) : Op Symbol → Option (List Symbol × Option Item)
  | .push symbols => some (buf ++ symbols, none)
  | .next =>
    match split buf with
    | .more => some (buf, none)
    | .bad => none
    | .item item rest => some (rest, some item)

/-- The items found and what is left of the buffer, if nothing bad was met. -/
def collect : List Symbol → List (Op Symbol) → Option (List Symbol × List Item)
  | buf, [] => some (buf, [])
  | buf, op :: rest =>
    (advance split buf op).bind fun (buf, item) =>
      (collect buf rest).map fun (buf, items) => (buf, item.toList ++ items)

/-- A buffer that is part of an item and what follows it has the item or asks for more. -/
structure Format (wire : Item → List Symbol) (fits : Item → Prop) : Prop where
  cut : ∀ {item buf later tail}, fits item → buf ++ later = wire item ++ tail →
    split buf = .more ∨ ∃ rest, split buf = .item item rest ∧ rest ++ later = tail
  whole : ∀ {item tail}, fits item → split (wire item ++ tail) = .item item tail
  empty : split [] = .more

variable {split} {wire : Item → List Symbol} {fits : Item → Prop}

variable {items : List Item}

/-- Whatever part of a stream of items has arrived, and however it was read, the items taken are the
first ones and the buffer goes on with the rest. -/
theorem Format.collect_of_fits (format : Format split wire fits) {ops : List (Op Symbol)}
    {buf later : List Symbol} (fit : ∀ item ∈ items, fits item)
    (part : buf ++ pushed ops ++ later = items.flatMap wire) :
    ∃ after taken left, collect split buf ops = some (after, taken) ∧ items = taken ++ left ∧
      after ++ later = left.flatMap wire := by
  induction ops generalizing buf items with
  | nil =>
    refine ⟨buf, [], items, rfl, rfl, ?_⟩
    rwa [pushed, append_nil] at part
  | cons op rest ih =>
    cases op with
    | push symbols =>
      have shifted : buf ++ symbols ++ pushed rest ++ later = items.flatMap wire := by
        rw [← part, pushed, append_assoc buf symbols]
      obtain ⟨after, taken, left, collected, whole, remains⟩ := ih fit shifted
      refine ⟨after, taken, left, ?_, whole, remains⟩
      simp [collect, advance, collected]
    | next =>
      have looked : split buf = .more ∨ ∃ item others after, items = item :: others ∧
          split buf = .item item after ∧
          after ++ pushed rest ++ later = others.flatMap wire := by
        cases items with
        | nil =>
          have nothing : buf = [] := by
            simp only [flatMap_nil, append_eq_nil_iff] at part
            exact part.1.1
          exact Or.inl (nothing ▸ format.empty)
        | cons item others =>
          rw [flatMap_cons, append_assoc] at part
          rcases format.cut (fit item mem_cons_self) part with more | ⟨after, found, same⟩
          · exact Or.inl more
          · exact Or.inr ⟨item, others, after, rfl, found,
              (append_assoc _ _ _).trans same⟩
      rcases looked with more | ⟨item, others, after, rfl, found, same⟩
      · obtain ⟨after, taken, left, collected, whole, remains⟩ := ih fit part
        refine ⟨after, taken, left, ?_, whole, remains⟩
        simp [collect, advance, more, collected]
      · obtain ⟨last, taken, left, collected, whole, remains⟩ :=
          ih (fun other member => fit other (mem_cons_of_mem _ member)) same
        refine ⟨last, item :: taken, left, ?_, by rw [whole, cons_append], remains⟩
        simp [collect, advance, found, collected]

end Framing
