/-
This file is about lookup tables into a list.
-/

import Mathlib.Data.List.Basic
import Mathlib.Logic.Function.Basic

namespace IndexTable

open List

variable {Entry Key : Type*} {key : Entry → Key} {entries : List Entry}
  {table : Key → Option Nat}

/-- The table leads from each key to the position of its entry. -/
def Exact (key : Entry → Key) (entries : List Entry) (table : Key → Option Nat) : Prop :=
  ∀ found position, table found = some position ↔
    ∃ entry, entries[position]? = some entry ∧ key entry = found

def shiftDown (removed position : Nat) : Nat :=
  if position > removed then position - 1 else position

theorem exact_nil : Exact key [] fun _ => none := by
  intro found position
  simp

theorem Exact.lookup (exact : Exact key entries table) {position : Nat} {entry : Entry}
    (holds : entries[position]? = some entry) : table (key entry) = some position :=
  (exact _ _).mpr ⟨entry, holds, rfl⟩

theorem Exact.modify (exact : Exact key entries table) {changed : Nat} {f : Entry → Entry}
    (same : ∀ entry, entries[changed]? = some entry → key (f entry) = key entry) :
    Exact key (entries.modify changed f) table := by
  intro found position
  rw [exact found position]
  simp only [getElem?_modify, Option.map_eq_map, Option.map_eq_some_iff]
  constructor
  · rintro ⟨entry, holds, rfl⟩
    refine ⟨_, ⟨entry, holds, rfl⟩, ?_⟩
    by_cases here : changed = position
    · rw [if_pos here, same entry (here ▸ holds)]
    · rw [if_neg here]
  · rintro ⟨_, ⟨entry, holds, rfl⟩, rfl⟩
    refine ⟨entry, holds, ?_⟩
    by_cases here : changed = position
    · rw [if_pos here, same entry (here ▸ holds)]
    · rw [if_neg here]

theorem Exact.push [DecidableEq Key] (exact : Exact key entries table) {new : Entry}
    (fresh : ∀ entry ∈ entries, key entry ≠ key new) :
    Exact key (entries ++ [new]) (Function.update table (key new) (some entries.length)) := by
  intro found position
  by_cases own : found = key new
  · subst own
    rw [Function.update_self, Option.some.injEq]
    constructor
    · rintro rfl
      exact ⟨new, by simp, rfl⟩
    · rintro ⟨entry, holds, same⟩
      rcases Nat.lt_trichotomy position entries.length with before | here | behind
      · rw [getElem?_append_left before] at holds
        exact absurd same (fresh entry (mem_of_getElem? holds))
      · exact here.symm
      · rw [getElem?_eq_none (by simp; omega)] at holds
        cases holds
  · rw [Function.update_of_ne own, exact found position]
    constructor
    · rintro ⟨entry, holds, same⟩
      refine ⟨entry, ?_, same⟩
      rw [getElem?_append_left (List.getElem?_eq_some_iff.mp holds).1]
      exact holds
    · rintro ⟨entry, holds, same⟩
      rcases Nat.lt_or_ge position entries.length with before | behind
      · rw [getElem?_append_left before] at holds
        exact ⟨entry, holds, same⟩
      · rw [getElem?_append_right behind] at holds
        rw [mem_singleton.mp (mem_of_getElem? holds)] at same
        exact absurd same.symm own

theorem getElem?_eraseIdx_shiftDown {removed position : Nat} (apart : position ≠ removed) :
    (entries.eraseIdx removed)[shiftDown removed position]? = entries[position]? := by
  unfold shiftDown
  rw [getElem?_eraseIdx]
  by_cases behind : position > removed
  · rw [if_pos behind, if_neg (by omega), Nat.sub_add_cancel (by omega)]
  · rw [if_neg behind, if_pos (by omega)]

theorem exists_shiftDown (removed position : Nat) :
    ∃ old, old ≠ removed ∧ shiftDown removed old = position := by
  by_cases before : position < removed
  · exact ⟨position, by omega, if_neg (by omega)⟩
  · exact ⟨position + 1, by omega, if_pos (by omega)⟩

theorem shiftDown_injective {removed first second : Nat} (here : first ≠ removed)
    (there : second ≠ removed) (same : shiftDown removed first = shiftDown removed second) :
    first = second := by
  unfold shiftDown at same
  split at same <;> split at same <;> omega

theorem Exact.remove [DecidableEq Key] (exact : Exact key entries table) {removed : Nat}
    {gone : Entry} (holds : entries[removed]? = some gone) :
    Exact key (entries.eraseIdx removed)
      (fun found => (Function.update table (key gone) none found).map (shiftDown removed)) := by
  intro found position
  obtain ⟨old, apart, rfl⟩ := exists_shiftDown removed position
  rw [getElem?_eraseIdx_shiftDown apart, ← exact found old]
  dsimp only
  by_cases own : found = key gone
  · subst own
    rw [Function.update_self, exact.lookup holds]
    simpa using Ne.symm apart
  · rw [Function.update_of_ne own, Option.map_eq_some_iff]
    constructor
    · rintro ⟨kept, entry, same⟩
      have elsewhere : kept ≠ removed := by
        rintro rfl
        obtain ⟨other, there, isKey⟩ := (exact found kept).mp entry
        rw [holds] at there
        exact own (isKey.symm.trans (congrArg key (Option.some.inj there).symm))
      rwa [← shiftDown_injective elsewhere apart same]
    · exact fun entry => ⟨old, entry, rfl⟩

end IndexTable
