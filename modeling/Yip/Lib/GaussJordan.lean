/-
This file is Gauss-Jordan inversion of a square matrix over a field, as the in-place algorithm
that carries a second block along, which starts as the identity.
-/

import Mathlib.Algebra.BigOperators.Fin
import Mathlib.Algebra.BigOperators.Ring.Finset
import Mathlib.Algebra.Field.Basic
import Mathlib.LinearAlgebra.Matrix.ToLinearEquiv
import Mathlib.Tactic

namespace GaussJordan

variable {F : Type*} {n : ℕ}

abbrev Rows (F : Type*) (n : ℕ) := Vector (Vector F n) n

variable (rows : Rows F n) (first second : Fin n) (col : Fin n) (factor : F) (x : Fin n → F)
  (i : Fin n)

def entry (rows : Rows F n) (i j : Fin n) : F := rows[i][j]

def swapRows (rows : Rows F n) (first second : Fin n) : Rows F n :=
  rows.swap first second

theorem entry_swapRows (first second i j : Fin n) :
    entry (swapRows rows first second) i j = entry rows (Equiv.swap first second i) j := by
  by_cases isFirst : i = first
  · simp [entry, swapRows, isFirst]
  · by_cases isSecond : i = second
    · simp [entry, swapRows, isSecond]
    · rw [Equiv.swap_apply_of_ne_of_ne isFirst isSecond]
      simp [entry, swapRows, Fin.val_inj, isFirst, isSecond]

variable [Field F]

def apply (rows : Rows F n) (x : Fin n → F) (i : Fin n) : F :=
  ∑ j, entry rows i j * x j

/-! ### Row operations -/

def identity : Rows F n :=
  Vector.ofFn fun i => Vector.ofFn fun j => if i = j then 1 else 0

def scaleRow (rows : Rows F n) (col : Fin n) (factor : F) : Rows F n :=
  rows.set col (rows[col].map fun value => value * factor)

def eliminate [DecidableEq F] (factors rows : Rows F n) (col : Fin n) : Rows F n :=
  Vector.ofFn fun r =>
    if r = col then rows[r]
    else if entry factors r col = 0 then rows[r]
    else Vector.zipWith (fun value pivot => value - entry factors r col * pivot) rows[r] rows[col]

theorem apply_identity : apply identity x i = x i := by
  simp [apply, entry, identity]

theorem entry_scaleRow (i j : Fin n) :
    entry (scaleRow rows col factor) i j =
      if i = col then entry rows col j * factor else entry rows i j := by
  by_cases pivot : i = col
  · simp [entry, scaleRow, pivot]
  · have other : (col : ℕ) ≠ i := fun equal => pivot (Fin.ext equal.symm)
    simp [entry, scaleRow, pivot, Vector.getElem_set_ne _ _ other]

theorem entry_eliminate [DecidableEq F] (factors rows : Rows F n) (col i j : Fin n) :
    entry (eliminate factors rows col) i j =
      if i = col then entry rows col j
      else entry rows i j - entry factors i col * entry rows col j := by
  have row : (eliminate factors rows col)[i] =
      if i = col then rows[i]
      else if entry factors i col = 0 then rows[i]
      else Vector.zipWith (fun value pivot => value - entry factors i col * pivot)
        rows[i] rows[col] := by
    simp [eliminate]
  rw [entry, row]
  by_cases pivot : i = col
  · simp [pivot, entry]
  · by_cases zero : entry factors i col = 0
    · simp only [pivot, zero, if_false, if_true, zero_mul, sub_zero]
      rfl
    · simp only [pivot, zero, if_false]
      simp [entry]

theorem apply_swapRows :
    apply (swapRows rows first second) x i = apply rows x (Equiv.swap first second i) := by
  simp only [apply, entry_swapRows]

theorem apply_scaleRow :
    apply (scaleRow rows col factor) x i =
      if i = col then apply rows x col * factor else apply rows x i := by
  simp only [apply, entry_scaleRow]
  split
  · rw [Finset.sum_mul]
    exact Finset.sum_congr rfl fun j _ => by ring
  · rfl

theorem apply_eliminate [DecidableEq F] (factors rows : Rows F n) (col : Fin n) (x : Fin n → F)
    (i : Fin n) :
    apply (eliminate factors rows col) x i =
      if i = col then apply rows x col
      else apply rows x i - entry factors i col * apply rows x col := by
  simp only [apply, entry_eliminate]
  split
  · rfl
  · rw [Finset.mul_sum, ← Finset.sum_sub_distrib]
    exact Finset.sum_congr rfl fun j _ => by ring

/-! ### The algorithm -/

variable [DecidableEq F]

/-- The matrix being reduced and what it does to the identity. -/
structure Blocks (F : Type*) (n : ℕ) where
  left : Rows F n
  right : Rows F n

def findPivot (left : Rows F n) (col : Fin n) : Option (Fin n) :=
  (List.finRange n).find? fun r => decide (col ≤ r ∧ entry left r col ≠ 0)

def step (blocks : Blocks F n) (col : Fin n) : Option (Blocks F n) :=
  (findPivot blocks.left col).map fun pivot =>
    let left := swapRows blocks.left col pivot
    let right := swapRows blocks.right col pivot
    let factor := (entry left col col)⁻¹
    let left := scaleRow left col factor
    let right := scaleRow right col factor
    ⟨eliminate left left col, eliminate left right col⟩

def columns (rows : Rows F n) : ℕ → Option (Blocks F n)
  | 0 => some ⟨rows, identity⟩
  | count + 1 =>
    (columns rows count).bind fun blocks =>
      if bound : count < n then step blocks ⟨count, bound⟩ else some blocks

/-- The inverse, or `none` if a column has no pivot. -/
def invert (rows : Rows F n) : Option (Rows F n) :=
  (columns rows n).map Blocks.right

/-! ### Correctness -/

/-- The first columns are those of the identity, and the solutions are kept. -/
structure Reduced (rows : Rows F n) (count : ℕ) (blocks : Blocks F n) : Prop where
  solves : ∀ x y, (∀ i, apply rows x i = y i) → ∀ i, apply blocks.left x i = apply blocks.right y i
  kernel : ∀ x, (∀ i, apply blocks.left x i = 0) → ∀ i, apply rows x i = 0
  unit : ∀ i j : Fin n, (j : ℕ) < count → entry blocks.left i j = if i = j then 1 else 0

theorem reduced_start : Reduced rows 0 ⟨rows, identity⟩ where
  solves := by
    intro x y values i
    rw [apply_identity, values]
  kernel := fun _ zero => zero
  unit := by
    intro i j impossible
    omega

theorem findPivot_spec {left : Rows F n} {col pivot : Fin n}
    (found : findPivot left col = some pivot) : col ≤ pivot ∧ entry left pivot col ≠ 0 := by
  have property := List.find?_some found
  simpa using property

theorem findPivot_isSome (blocks : Blocks F n) (reduced : Reduced rows col blocks)
    (trivialKernel : ∀ x, (∀ i, apply rows x i = 0) → ∀ i, x i = 0) :
    ∃ pivot, findPivot blocks.left col = some pivot := by
  cases found : findPivot blocks.left col with
  | some pivot => exact ⟨pivot, rfl⟩
  | none =>
    exfalso
    have below : ∀ r, col ≤ r → entry blocks.left r col = 0 := by
      intro r lower
      have rejected := List.find?_eq_none.mp found r (List.mem_finRange r)
      simpa [lower] using rejected
    let x : Fin n → F := fun j =>
      if j < col then -entry blocks.left j col else if j = col then 1 else 0
    have summand : ∀ i j : Fin n, entry blocks.left i j * x j =
        (if j = i then (if i < col then -entry blocks.left i col else 0) else 0) +
          (if j = col then entry blocks.left i col else 0) := by
      intro i j
      by_cases before : j < col
      · rw [reduced.unit i j before]
        by_cases diagonal : j = i
        · subst diagonal
          simp [x, before, before.ne]
        · simp [before.ne, diagonal, Ne.symm diagonal]
      · by_cases same : j = col
        · subst same
          by_cases diagonal : j = i
          · simp [x, diagonal]
          · simp [x, diagonal]
        · by_cases diagonal : j = i
          · subst diagonal
            simp [x, before, same]
          · simp [x, before, same, diagonal]
    have zero : ∀ i, apply blocks.left x i = 0 := by
      intro i
      simp only [apply, summand, Finset.sum_add_distrib, Finset.sum_ite_eq', Finset.mem_univ,
        if_true]
      by_cases before : i < col
      · simp [before]
      · simp [before, below i (not_lt.mp before)]
    have contradiction := trivialKernel x (reduced.kernel x zero) col
    simp [x] at contradiction

/-! The three row operations add no kernel vector. -/

omit [DecidableEq F] in
theorem kernel_swapRows
    (zero : ∀ i, apply (swapRows rows first second) x i = 0) (i : Fin n) : apply rows x i = 0 := by
  have row := zero (Equiv.swap first second i)
  rwa [apply_swapRows, Equiv.swap_apply_self] at row

omit [DecidableEq F] in
theorem kernel_scaleRow (nonzero : factor ≠ 0)
    (x : Fin n → F) (zero : ∀ i, apply (scaleRow rows col factor) x i = 0) (i : Fin n) :
    apply rows x i = 0 := by
  have row := zero i
  rw [apply_scaleRow] at row
  split at row
  · rename_i pivot
    rw [pivot]
    exact (mul_eq_zero.mp row).resolve_right nonzero
  · exact row

theorem kernel_eliminate (factors rows : Rows F n) (col : Fin n) (x : Fin n → F)
    (zero : ∀ i, apply (eliminate factors rows col) x i = 0) (i : Fin n) : apply rows x i = 0 := by
  have pivotRow : apply rows x col = 0 := by simpa [apply_eliminate] using zero col
  have row := zero i
  rw [apply_eliminate] at row
  split at row
  · rename_i pivot
    rw [pivot]
    exact row
  · simpa [pivotRow] using row

theorem unit_step (left : Rows F n) (col pivot : Fin n) (lower : col ≤ pivot)
    (nonzero : entry left pivot col ≠ 0)
    (unit : ∀ i j : Fin n, j < col → entry left i j = if i = j then 1 else 0)
    (i j : Fin n) (processed : j ≤ col) :
    entry (eliminate (scaleRow (swapRows left col pivot) col (entry left pivot col)⁻¹)
      (scaleRow (swapRows left col pivot) col (entry left pivot col)⁻¹) col) i j =
        if i = j then 1 else 0 := by
  simp only [entry_eliminate, entry_scaleRow, entry_swapRows, Equiv.swap_apply_left, if_true]
  rcases processed.lt_or_eq with before | rfl
  · have pivotZero : entry left pivot j = 0 := by
      rw [unit pivot j before, if_neg (before.trans_le lower).ne']
    by_cases atCol : i = col
    · simp [atCol, pivotZero, before.ne']
    · simp only [atCol, if_false, pivotZero, zero_mul, mul_zero, sub_zero]
      by_cases atPivot : i = pivot
      · rw [atPivot, Equiv.swap_apply_right, unit col j before, if_neg before.ne',
          if_neg (before.trans_le lower).ne']
      · rw [Equiv.swap_apply_of_ne_of_ne atCol atPivot, unit i j before]
  · by_cases atCol : i = j
    · simp [atCol, nonzero]
    · simp [atCol, nonzero]

theorem step_reduced (blocks next : Blocks F n)
    (reduced : Reduced rows col blocks) (stepped : step blocks col = some next) :
    Reduced rows (col + 1) next := by
  obtain ⟨pivot, found, rfl⟩ := Option.map_eq_some_iff.mp stepped
  obtain ⟨lower, nonzero⟩ := findPivot_spec found
  have swapped : entry (swapRows blocks.left col pivot) col col = entry blocks.left pivot col := by
    rw [entry_swapRows, Equiv.swap_apply_left]
  refine ⟨?_, ?_, ?_⟩
  · intro x y values i
    simp only [apply_eliminate, apply_scaleRow, apply_swapRows, reduced.solves x y values]
  · intro x zero
    simp only [swapped] at zero
    have scaled := kernel_eliminate _ _ _ x zero
    have swappedZero := kernel_scaleRow _ _ _ (inv_ne_zero nonzero) x scaled
    exact reduced.kernel x (kernel_swapRows _ _ _ x swappedZero)
  · intro i j processed
    simp only [swapped]
    exact unit_step blocks.left col pivot lower nonzero
      (fun i j before => reduced.unit i j before) i j (by omega)

theorem columns_reduced (count : ℕ) (bound : count ≤ n) (blocks : Blocks F n)
    (computed : columns rows count = some blocks) : Reduced rows count blocks := by
  induction count generalizing blocks with
  | zero =>
    cases computed
    exact reduced_start rows
  | succ count ih =>
    obtain ⟨previous, before, stepped⟩ := Option.bind_eq_some_iff.mp computed
    rw [dif_pos (show count < n from bound)] at stepped
    exact step_reduced rows ⟨count, bound⟩ previous blocks (ih (by omega) previous before) stepped

/-- Every column has a pivot exactly if the rows have no kernel. -/
theorem invert_isSome_iff :
    (invert rows).isSome ↔ ∀ x, (∀ i, apply rows x i = 0) → ∀ i, x i = 0 := by
  rw [invert, Option.isSome_map]
  constructor
  · intro computed x zero i
    obtain ⟨blocks, computed⟩ := Option.isSome_iff_exists.mp computed
    have reduced := columns_reduced rows n le_rfl blocks computed
    have solved := reduced.solves x 0 zero i
    simpa [apply, reduced.unit i _ (Fin.isLt _)] using solved
  · intro trivialKernel
    have computed : ∀ count ≤ n, (columns rows count).isSome := by
      intro count bound
      induction count with
      | zero => rfl
      | succ count ih =>
        obtain ⟨blocks, computed⟩ := Option.isSome_iff_exists.mp (ih (by omega))
        obtain ⟨pivot, found⟩ := findPivot_isSome rows ⟨count, bound⟩ blocks
          (columns_reduced rows count (by omega) blocks computed) trivialKernel
        rw [columns, computed, Option.bind_some, dif_pos (show count < n from bound), step, found]
        rfl
    exact computed n le_rfl

theorem apply_of_invert {rows inverse : Rows F n} (inverted : invert rows = some inverse)
    (x : Fin n → F) : apply inverse (apply rows x) = x := by
  obtain ⟨blocks, computed, rfl⟩ := Option.map_eq_some_iff.mp inverted
  have reduced := columns_reduced rows n le_rfl blocks computed
  funext i
  rw [← reduced.solves x (apply rows x) (fun _ => rfl) i]
  simp [apply, reduced.unit i _ (Fin.isLt _)]

theorem invert_spec (trivialKernel : ∀ x, (∀ i, apply rows x i = 0) → ∀ i, x i = 0) :
    ∃ inverse, invert rows = some inverse ∧
      ∀ x y, (∀ i, apply rows x i = y i) → ∀ i, apply inverse y i = x i := by
  obtain ⟨inverse, inverted⟩ := Option.isSome_iff_exists.mp
    ((invert_isSome_iff rows).mpr trivialKernel)
  refine ⟨inverse, inverted, fun x y values i => ?_⟩
  rw [← funext values, apply_of_invert inverted]

/-! ### Matrices -/

def matrix (rows : Rows F n) : Matrix (Fin n) (Fin n) F := Matrix.of (entry rows)

theorem invert_isSome_iff_det : (invert rows).isSome ↔ (matrix rows).det ≠ 0 := by
  have kernel : (∃ x, x ≠ 0 ∧ (matrix rows).mulVec x = 0) ↔ (matrix rows).det = 0 :=
    Matrix.exists_mulVec_eq_zero_iff
  rw [invert_isSome_iff, Ne, ← kernel, not_exists]
  refine forall_congr' fun x => ?_
  rw [not_and', not_not, funext_iff, funext_iff]
  rfl

theorem mul_of_invert {rows inverse : Rows F n} (inverted : invert rows = some inverse) :
    matrix rows * matrix inverse = 1 := by
  refine mul_eq_one_comm.mp (Matrix.ext_of_mulVec_single fun j => ?_)
  rw [← Matrix.mulVec_mulVec, Matrix.one_mulVec]
  exact apply_of_invert inverted _

end GaussJordan
