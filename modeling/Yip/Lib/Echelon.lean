/-
This file is about vectors over a field kept in echelon form one at a time: a row has a one at
its own column and zeros before it, and a place without a row holds zeros.
-/

import Mathlib.LinearAlgebra.Dimension.Constructions
import Mathlib.LinearAlgebra.FiniteDimensional.Lemmas
import Mathlib.Algebra.BigOperators.Fin

namespace Echelon

variable {F : Type*} [Field F] {n : ℕ}

/-- Rows that begin with a one at their own column, or are absent. -/
structure Staircase (rows : Fin n → Fin n → F) (pivots : Set (Fin n)) : Prop where
  before : ∀ i j, j < i → rows i j = 0
  pivot : ∀ i ∈ pivots, rows i i = 1
  absent : ∀ i ∉ pivots, rows i = 0

def rowSpace (rows : Fin n → Fin n → F) : Submodule F (Fin n → F) :=
  Submodule.span F (Set.range rows)

variable {rows : Fin n → Fin n → F} {pivots : Set (Fin n)}

theorem mem_rowSpace_iff {vector : Fin n → F} :
    vector ∈ rowSpace rows ↔ ∃ factor : Fin n → F, ∑ i, factor i • rows i = vector :=
  Submodule.mem_span_range_iff_exists_fun F

theorem row_mem_rowSpace (i : Fin n) : rows i ∈ rowSpace rows :=
  Submodule.subset_span ⟨i, rfl⟩

theorem staircase_zero : Staircase (fun _ => 0 : Fin n → Fin n → F) ∅ :=
  ⟨fun _ _ _ => rfl, fun _ member => absurd member (Set.notMem_empty _), fun _ _ => rfl⟩

theorem rowSpace_zero : rowSpace (fun _ => 0 : Fin n → Fin n → F) = ⊥ := by
  rw [rowSpace, Submodule.span_eq_bot]
  rintro _ ⟨_, rfl⟩
  rfl

theorem sup_span_sub {space : Submodule F (Fin n → F)} {vector spanned : Fin n → F}
    (member : spanned ∈ space) :
    space ⊔ Submodule.span F {vector - spanned} = space ⊔ Submodule.span F {vector} := by
  apply le_antisymm
  · refine sup_le le_sup_left ((Submodule.span_singleton_le_iff_mem _ _).mpr ?_)
    exact Submodule.sub_mem _ (Submodule.mem_sup_right (Submodule.mem_span_singleton_self vector))
      (Submodule.mem_sup_left member)
  · refine sup_le le_sup_left ((Submodule.span_singleton_le_iff_mem _ _).mpr ?_)
    have whole := Submodule.add_mem (space ⊔ Submodule.span F {vector - spanned})
      (Submodule.mem_sup_right (Submodule.mem_span_singleton_self (vector - spanned)))
      (Submodule.mem_sup_left member)
    rwa [sub_add_cancel] at whole

namespace Staircase

variable (stairs : Staircase rows pivots)

include stairs

variable {col : Fin n}

theorem sum_apply {factor : Fin n → F} (idle : ∀ i < col, factor i • rows i = 0) :
    (∑ i, factor i • rows i) col = factor col * rows col col := by
  rw [Finset.sum_apply, Finset.sum_eq_single col]
  · rfl
  · intro i _ other
    rcases lt_or_gt_of_ne other with less | greater
    · rw [idle i less, Pi.zero_apply]
    · rw [Pi.smul_apply, stairs.before i col greater, smul_zero]
  · intro missing
    exact absurd (Finset.mem_univ col) missing

theorem idle_of_zero {factor : Fin n → F} (zero : ∀ j < col, (∑ i, factor i • rows i) j = 0) :
    ∀ i < col, factor i • rows i = 0 := by
  intro i
  induction i using WellFoundedLT.induction with
  | ind i ih =>
    intro less
    have idle : ∀ j < i, factor j • rows j = 0 :=
      fun j lower => ih j lower (lower.trans less)
    have entry := zero i less
    rw [stairs.sum_apply idle] at entry
    by_cases step : i ∈ pivots
    · rw [stairs.pivot i step, mul_one] at entry
      rw [entry, zero_smul]
    · rw [stairs.absent i step, smul_zero]

theorem entry_eq_zero {vector : Fin n → F} (spanned : vector ∈ rowSpace rows)
    (zero : ∀ j < col, vector j = 0) (absent : col ∉ pivots) : vector col = 0 := by
  obtain ⟨factor, rfl⟩ := mem_rowSpace_iff.mp spanned
  rw [stairs.sum_apply (stairs.idle_of_zero zero), stairs.absent col absent, Pi.zero_apply,
    mul_zero]

theorem insert {row : Fin n → F} (zero : ∀ j < col, row j = 0) (one : row col = 1) :
    Staircase (Function.update rows col row) (insert col pivots) where
  before i j less := by
    by_cases here : i = col
    · subst here
      rw [Function.update_self]
      exact zero j less
    · rw [Function.update_of_ne here]
      exact stairs.before i j less
  pivot i step := by
    by_cases here : i = col
    · subst here
      rw [Function.update_self]
      exact one
    · rw [Function.update_of_ne here]
      exact stairs.pivot i (step.resolve_left here)
  absent i missing := by
    have here : i ≠ col := fun here => missing (Or.inl here)
    rw [Function.update_of_ne here]
    exact stairs.absent i fun step => missing (Or.inr step)

theorem rowSpace_insert (absent : col ∉ pivots) (row : Fin n → F) :
    rowSpace (Function.update rows col row) = rowSpace rows ⊔ Submodule.span F {row} := by
  apply le_antisymm
  · refine Submodule.span_le.mpr ?_
    rintro _ ⟨i, rfl⟩
    by_cases here : i = col
    · rw [here, Function.update_self]
      exact Submodule.mem_sup_right (Submodule.mem_span_singleton_self row)
    · rw [Function.update_of_ne here]
      exact Submodule.mem_sup_left (row_mem_rowSpace i)
  · refine sup_le (Submodule.span_le.mpr ?_) ?_
    · rintro _ ⟨i, rfl⟩
      by_cases here : i = col
      · rw [here, stairs.absent col absent]
        exact Submodule.zero_mem _
      · have kept := @row_mem_rowSpace F _ n (Function.update rows col row) i
        rwa [Function.update_of_ne here] at kept
    · rw [Submodule.span_singleton_le_iff_mem]
      have new := @row_mem_rowSpace F _ n (Function.update rows col row) col
      rwa [Function.update_self] at new

theorem rowSpace_eq_top (all : ∀ i, i ∈ pivots) : rowSpace rows = ⊤ := by
  have independent : LinearIndependent F rows := by
    refine Fintype.linearIndependent_iff.mpr fun factor zero i => ?_
    have idle : ∀ j < i, factor j • rows j = 0 :=
      stairs.idle_of_zero fun j _ => by rw [zero]; rfl
    have entry := congrFun zero i
    rw [stairs.sum_apply idle, stairs.pivot i (all i), mul_one] at entry
    exact entry
  exact independent.span_eq_top_of_card_eq_finrank' (by simp)

end Staircase

end Echelon
