/-
This file is the theory of systematic erasure codes over a field.
-/

import Mathlib.LinearAlgebra.Lagrange
import Mathlib.LinearAlgebra.Matrix.NonsingularInverse
import Yip.Lib.GaussJordan

namespace ErasureCode

open Polynomial

variable {F : Type*} [Field F] {k : ℕ}

def generatorRow (repair : ℕ → Fin k → F) (index : ℕ) (i : Fin k) : F :=
  if index < k then (if index = i then 1 else 0) else repair (index - k) i

/-- Any rows, at least as many as entries are missing, determine them. -/
def Mds (repair : ℕ → Fin k → F) (count : ℕ) : Prop :=
  ∀ (missing : Finset (Fin k)) (rows : Finset ℕ), (∀ m ∈ rows, m < count) →
    missing.card ≤ rows.card → ∀ x : Fin k → F, (∀ i ∉ missing, x i = 0) →
      (∀ m ∈ rows, ∑ i, repair m i * x i = 0) → ∀ i, x i = 0

/-! ### Cauchy rows -/

section Cauchy

variable (xs : ℕ → F) (ys : Fin k → F) (count : ℕ)

variable (missing : Finset (Fin k)) (x : Fin k → F)

noncomputable def combination (missing : Finset (Fin k)) (x : Fin k → F) : F[X] :=
  ∑ i ∈ missing, C (x i) * Lagrange.nodal (missing.erase i) ys

theorem degree_combination_lt : (combination ys missing x).degree < missing.card := by
  unfold combination
  refine (degree_sum_le _ _).trans_lt ?_
  rw [Finset.sup_lt_iff (WithBot.bot_lt_coe _)]
  intro i member
  calc (C (x i) * Lagrange.nodal (missing.erase i) ys).degree
      ≤ (C (x i)).degree + (Lagrange.nodal (missing.erase i) ys).degree := degree_mul_le _ _
    _ ≤ 0 + (missing.erase i).card := by
        rw [Lagrange.degree_nodal]
        exact add_le_add_left degree_C_le _
    _ < missing.card := by
        rw [zero_add, Finset.card_erase_of_mem member]
        have positive : 0 < missing.card := Finset.card_pos.mpr ⟨i, member⟩
        exact_mod_cast Nat.sub_lt positive one_pos

theorem eval_combination_root (point : F)
    (apart : ∀ i, point ≠ ys i) (outside : ∀ i ∉ missing, x i = 0)
    (row : ∑ i, (point - ys i)⁻¹ * x i = 0) : (combination ys missing x).eval point = 0 := by
  have restricted : ∑ i ∈ missing, (point - ys i)⁻¹ * x i = 0 := by
    rw [← row]
    refine Finset.sum_subset (Finset.subset_univ _) fun i _ absent => ?_
    rw [outside i absent, mul_zero]
  have factored : (combination ys missing x).eval point =
      (Lagrange.nodal missing ys).eval point * ∑ i ∈ missing, (point - ys i)⁻¹ * x i := by
    rw [combination, eval_finsetSum, Finset.mul_sum]
    refine Finset.sum_congr rfl fun i member => ?_
    have nonzero : point - ys i ≠ 0 := sub_ne_zero.mpr (apart i)
    rw [Lagrange.nodal_eq_mul_nodal_erase member]
    simp only [eval_mul, eval_C, eval_sub, eval_X]
    field_simp
  rw [factored, restricted, mul_zero]

theorem eval_combination_node (i : Fin k)
    (member : i ∈ missing) : (combination ys missing x).eval (ys i) =
      x i * (Lagrange.nodal (missing.erase i) ys).eval (ys i) := by
  rw [combination, eval_finsetSum, Finset.sum_eq_single_of_mem i member]
  · simp
  · intro j _ other
    have vanishes : (Lagrange.nodal (missing.erase j) ys).eval (ys i) = 0 :=
      Lagrange.eval_nodal_at_node (Finset.mem_erase.mpr ⟨other.symm, member⟩)
    simp [vanishes]

theorem cauchy_mds (xsInjective : Set.InjOn xs {m | m < count})
    (ysInjective : Function.Injective ys) (apart : ∀ m < count, ∀ i, xs m ≠ ys i) :
    Mds (fun m i => (xs m - ys i)⁻¹) count := by
  intro missing rows bound enough x outside zero i
  by_cases member : i ∈ missing
  · have vanishes : combination ys missing x = 0 := by
      refine Polynomial.eq_zero_of_degree_lt_of_eval_index_eq_zero rows
        (fun a ma b mb => xsInjective (bound a ma) (bound b mb))
        ((degree_combination_lt ys missing x).trans_le (by exact_mod_cast enough)) ?_
      intro m memberRow
      exact eval_combination_root ys missing x (xs m) (apart m (bound m memberRow)) outside
        (zero m memberRow)
    have product := eval_combination_node ys missing x i member
    rw [vanishes, eval_zero, eq_comm, mul_eq_zero] at product
    refine product.resolve_right ?_
    rw [Lagrange.eval_nodal]
    refine Finset.prod_ne_zero_iff.mpr fun j erased => ?_
    have different := (Finset.mem_erase.mp erased).1
    exact sub_ne_zero.mpr fun equal => different (ysInjective equal).symm
  · exact outside i member

end Cauchy

/-! ### A parity row and a weighted row -/

def parityRow (weights : Fin k → F) (m : ℕ) (i : Fin k) : F :=
  match m with
  | 0 => 1
  | 1 => weights i
  | _ => 0

theorem parity_mds (weights : Fin k → F) (injective : Function.Injective weights)
    (nonzero : ∀ i, weights i ≠ 0) : Mds (parityRow weights) 2 := by
  intro missing rows bound enough x outside zero
  have subset : rows ⊆ {0, 1} := by
    intro m member
    have := bound m member
    interval_cases m <;> simp
  have coefficient : ∀ m ∈ rows, ∀ i, parityRow weights m i ≠ 0 := by
    intro m member i
    have := bound m member
    interval_cases m
    · exact one_ne_zero
    · exact nonzero i
  have sum : ∀ m ∈ rows, ∑ i ∈ missing, parityRow weights m i * x i = 0 := by
    intro m member
    rw [← zero m member]
    refine Finset.sum_subset (Finset.subset_univ _) fun i _ absent => ?_
    rw [outside i absent, mul_zero]
  have atMostTwo : missing.card ≤ 2 := enough.trans (Finset.card_le_card subset)
  interval_cases size : missing.card
  · intro i
    exact outside i (by simp [Finset.card_eq_zero.mp size])
  · obtain ⟨lost, rfl⟩ := Finset.card_eq_one.mp size
    obtain ⟨m, member⟩ := Finset.card_pos.mp enough
    have product := sum m member
    rw [Finset.sum_singleton, mul_eq_zero] at product
    intro i
    by_cases isLost : i = lost
    · rw [isLost]
      exact product.resolve_left (coefficient m member lost)
    · exact outside i (by simpa using isLost)
  · obtain ⟨first, second, different, rfl⟩ := Finset.card_eq_two.mp size
    have both : rows = {0, 1} := Finset.eq_of_subset_of_card_le subset (by simpa using enough)
    have parity := sum 0 (by simp [both])
    have weighted := sum 1 (by simp [both])
    rw [Finset.sum_pair different] at parity weighted
    simp only [parityRow, one_mul] at parity weighted
    have secondEq : x second = -x first := by linear_combination parity
    have product : (weights first - weights second) * x first = 0 := by
      rw [secondEq] at weighted
      linear_combination weighted
    have firstZero : x first = 0 := (mul_eq_zero.mp product).resolve_left
      (sub_ne_zero.mpr fun equal => different (injective equal))
    intro i
    by_cases isFirst : i = first
    · rw [isFirst, firstZero]
    · by_cases isSecond : i = second
      · rw [isSecond, secondEq, firstZero, neg_zero]
      · exact outside i (by simp [isFirst, isSecond])

/-! ### Recovery from any `k` rows -/

section Recovery

variable (indices : Fin k → ℕ) (injective : Function.Injective indices)

def missing : Finset (Fin k) := Finset.univ.filter fun i => ∀ r, indices r ≠ i

def repairRows : Finset ℕ :=
  (Finset.univ.filter fun r => ¬ indices r < k).image fun r => indices r - k

include injective

theorem card_repairRows :
    (repairRows indices).card = (Finset.univ.filter fun r => ¬ indices r < k).card := by
  refine Finset.card_image_of_injOn fun r memberR s memberS equal => ?_
  simp only [Finset.coe_filter, Finset.mem_univ, true_and, Set.mem_ofPred_eq] at memberR memberS
  exact injective (by omega)

theorem card_missing_le : (missing indices).card ≤ (repairRows indices).card := by
  have present : (Finset.univ.filter fun r => indices r < k).card ≤
      (Finset.univ.filter fun i : Fin k => ¬ ∀ r, indices r ≠ i).card := by
    refine Finset.card_le_card_of_injOn
      (fun r => if bound : indices r < k then ⟨indices r, bound⟩ else r) ?_ ?_
    · intro r member
      have bound : indices r < k := by simpa using member
      simp only [bound, dif_pos, Finset.coe_filter, Finset.mem_univ, true_and, Set.mem_ofPred_eq]
      exact fun absent => absent r rfl
    · intro r memberR s memberS equal
      have boundR : indices r < k := by simpa using memberR
      have boundS : indices s < k := by simpa using memberS
      simp only [boundR, boundS, dif_pos, Fin.mk.injEq] at equal
      exact injective equal
  have sources := Finset.card_filter_add_card_filter_not
    (s := (Finset.univ : Finset (Fin k))) (fun i => ∀ r, indices r ≠ i)
  have rows := Finset.card_filter_add_card_filter_not
    (s := (Finset.univ : Finset (Fin k))) (fun r => indices r < k)
  rw [card_repairRows indices injective, missing]
  omega

section

variable (repair : ℕ → Fin k → F) (count : ℕ) (mds : Mds repair count)
  (bound : ∀ r, indices r < k + count)

include repair count mds bound

theorem trivialKernel_of_mds (x : Fin k → F)
    (zero : ∀ r, ∑ i, generatorRow repair (indices r) i * x i = 0) (i : Fin k) : x i = 0 := by
  refine mds (missing indices) (repairRows indices) ?_ (card_missing_le indices injective) x
    ?_ ?_ i
  · intro m member
    obtain ⟨r, chosen, rfl⟩ := Finset.mem_image.mp member
    have lower := (Finset.mem_filter.mp chosen).2
    have upper := bound r
    omega
  · intro j present
    obtain ⟨r, equal⟩ : ∃ r, indices r = j := by simpa [missing] using present
    have row := zero r
    simpa [generatorRow, equal, Fin.val_inj] using row
  · intro m member
    obtain ⟨r, chosen, rfl⟩ := Finset.mem_image.mp member
    have lower := (Finset.mem_filter.mp chosen).2
    rw [← zero r]
    simp only [generatorRow, lower, if_false]

theorem isUnit_of_mds : IsUnit (Matrix.of fun r i => generatorRow repair (indices r) i) := by
  rw [← Matrix.mulVec_injective_iff_isUnit]
  refine (injective_iff_map_eq_zero (Matrix.mulVecLin _)).mpr fun x zero => ?_
  funext i
  exact trivialKernel_of_mds indices injective repair count mds bound x (congrFun zero) i

theorem recover [DecidableEq F] (rows : GaussJordan.Rows F k)
    (chosen : ∀ r i, GaussJordan.entry rows r i = generatorRow repair (indices r) i) :
    ∃ inverse, GaussJordan.invert rows = some inverse ∧
      ∀ source received : Fin k → F,
        (∀ r, received r = ∑ i, generatorRow repair (indices r) i * source i) →
          ∀ i, GaussJordan.apply inverse received i = source i := by
  have applied : ∀ x r, GaussJordan.apply rows x r =
      ∑ i, generatorRow repair (indices r) i * x i := by
    intro x r
    simp only [GaussJordan.apply, chosen]
  obtain ⟨inverse, inverted, solves⟩ := GaussJordan.invert_spec rows (by
    intro x zero
    exact trivialKernel_of_mds indices injective repair count mds bound x
      (fun r => by rw [← applied]; exact zero r))
  refine ⟨inverse, inverted, fun source received values => solves source received ?_⟩
  intro r
  rw [applied, values]

end

end Recovery

end ErasureCode
