/-
This file is what the development needs of lists used as arrays: reading an entry after a write,
a slice of an array, a block copied into an array at an offset, and blocks of one length laid
end to end.
-/

import Mathlib.Algebra.GroupWithZero.Nat
import Mathlib.Data.List.GetD

namespace ArrayList

open List

variable {α : Type*}

theorem getD_set (values : List α) (index other : Nat) (value fallback : α)
    (bound : index < values.length) : (values.set index value).getD other fallback =
      if index = other then value else values.getD other fallback := by
  rw [getD_eq_getElem?_getD, getElem?_set, getD_eq_getElem?_getD]
  split
  · simp
  · rfl

def slice (values : List α) (offset len : Nat) : List α := (values.drop offset).take len

def copyInto (values : List α) (offset : Nat) (data : List α) : List α :=
  values.take offset ++ data ++ values.drop (offset + data.length)

theorem length_slice (values : List α) (offset len : Nat) (bound : offset + len ≤ values.length) :
    (slice values offset len).length = len := by
  rw [slice, length_take, length_drop]
  omega

theorem getD_slice (values : List α) (offset len index : Nat) (fallback : α) (bound : index < len) :
    (slice values offset len).getD index fallback = values.getD (offset + index) fallback := by
  simp only [slice, getD_eq_getElem?_getD, getElem?_take, getElem?_drop,
    if_pos bound]

theorem length_copyInto (values : List α) (offset : Nat) (data : List α)
    (bound : offset + data.length ≤ values.length) :
    (copyInto values offset data).length = values.length := by
  simp only [copyInto, length_append, length_take, length_drop]
  omega

theorem getD_copyInto (values : List α) (offset : Nat) (data : List α) (index : Nat) (fallback : α)
    (bound : offset + data.length ≤ values.length) :
    (copyInto values offset data).getD index fallback =
      if offset ≤ index ∧ index < offset + data.length then data.getD (index - offset) fallback
      else values.getD index fallback := by
  have taken : (values.take offset).length = offset := by
    rw [length_take]
    omega
  by_cases before : index < offset
  · rw [if_neg (by omega), copyInto, append_assoc, getD_append _ _ _ _ (by omega)]
    simp [getD_eq_getElem?_getD, before]
  · by_cases inside : index < offset + data.length
    · rw [if_pos ⟨by omega, inside⟩, copyInto, append_assoc,
        getD_append_right _ _ _ _ (by omega), taken, getD_append _ _ _ _ (by omega)]
    · rw [if_neg (by omega), copyInto, append_assoc,
        getD_append_right _ _ _ _ (by omega), taken,
        getD_append_right _ _ _ _ (by omega)]
      simp only [getD_eq_getElem?_getD, getElem?_drop]
      congr 2
      omega

variable {len i j : Nat} {values : List α} {blocks : List (List α)}

theorem eq_of_same_position {i' j' : Nat} (small : j < len) (small' : j' < len)
    (equal : i * len + j = i' * len + j') : i = i' := by
  have first : (i * len + j) / len = i := by
    rw [Nat.mul_comm, Nat.mul_add_div (by omega), Nat.div_eq_of_lt small, Nat.add_zero]
  have second : (i' * len + j') / len = i' := by
    rw [Nat.mul_comm, Nat.mul_add_div (by omega), Nat.div_eq_of_lt small', Nat.add_zero]
  rw [← first, equal, second]

theorem block_le (len : Nat) {block count : Nat} (bound : block < count) :
    block * len + len ≤ count * len := by
  rw [← Nat.succ_mul]
  exact Nat.mul_le_mul_right _ bound

variable {data : List α} {offset start : Nat}

theorem getD_copyInto_block {block : Nat} (length : data.length = len)
    (bound : block * len + len ≤ values.length) (small : j < len) {fallback : α} :
    (copyInto values (block * len) data).getD (i * len + j) fallback =
      if i = block then data.getD j fallback else values.getD (i * len + j) fallback := by
  rw [getD_copyInto _ _ _ _ _ (by rw [length]; exact bound), length]
  by_cases same : i = block
  · rw [if_pos same, same, if_pos ⟨by omega, by omega⟩, Nat.add_sub_cancel_left]
  · -- another block lies wholly before or wholly behind the one written
    have outside : ¬ (block * len ≤ i * len + j ∧ i * len + j < block * len + len) := by
      rintro ⟨low, high⟩
      exact same (eq_of_same_position small
        (show i * len + j - block * len < len by omega) (by omega))
    rw [if_neg same, if_neg outside]

theorem getD_flatten (length : ∀ block ∈ blocks, block.length = len) (i : Nat) (small : j < len)
    (fallback : α) :
    blocks.flatten.getD (i * len + j) fallback = (blocks.getD i []).getD j fallback := by
  induction blocks generalizing i with
  | nil => simp
  | cons block rest ih =>
    have first : block.length = len := length block mem_cons_self
    rw [flatten_cons]
    cases i with
    | zero =>
      rw [Nat.zero_mul, Nat.zero_add, getD_append _ _ _ _ (by omega), getD_cons_zero]
    | succ i =>
      have behind : (i + 1) * len + j - block.length = i * len + j := by
        rw [first, Nat.succ_mul]
        omega
      rw [getD_append_right _ _ _ _ (by rw [first, Nat.succ_mul]; omega), behind,
        ih (fun other member => length other (mem_cons_of_mem _ member)),
        getD_cons_succ]

theorem length_flatten_blocks (length : ∀ block ∈ blocks, block.length = len) :
    blocks.flatten.length = blocks.length * len := by
  rw [length_flatten, map_eq_replicate_iff.mpr length,
    sum_replicate_nat]

theorem eq_of_blocks {first second : List α} {count : Nat}
    (firstLength : first.length = count * len) (secondLength : second.length = count * len)
    (fallback : α)
    (agree : ∀ i < count, ∀ j < len,
      first.getD (i * len + j) fallback = second.getD (i * len + j) fallback) : first = second := by
  refine ext_getElem (firstLength.trans secondLength.symm) fun position inFirst inSecond => ?_
  have inside : position < len * count := by rwa [firstLength, Nat.mul_comm] at inFirst
  have positive : 0 < len := Nat.pos_of_mul_pos_right (Nat.zero_lt_of_lt inside)
  have value := agree (position / len) (Nat.div_lt_of_lt_mul inside) (position % len)
    (Nat.mod_lt _ positive)
  rwa [Nat.div_add_mod', getD_eq_getElem _ _ inFirst, getD_eq_getElem _ _ inSecond]
    at value

theorem slice_flatten (length : ∀ block ∈ blocks, block.length = len) (bound : i < blocks.length) :
    slice blocks.flatten (i * len) len = blocks.get ⟨i, bound⟩ := by
  have whole : i * len + len ≤ blocks.flatten.length := by
    rw [length_flatten_blocks length]
    exact block_le len bound
  have size := length_slice blocks.flatten (i * len) len whole
  have blockSize : (blocks.get ⟨i, bound⟩).length = len := length _ (get_mem _ _)
  refine ext_getElem (size.trans blockSize.symm) fun j inside inBlock => ?_
  have fallback : α := (blocks.get ⟨i, bound⟩).get ⟨j, inBlock⟩
  have small : j < len := size ▸ inside
  rw [← getD_eq_getElem _ fallback inside, getD_slice _ _ _ _ _ small,
    getD_flatten length i small, getD_eq_getElem _ _ bound, ← getD_eq_getElem _ fallback]
  rfl

theorem slice_append {values rest : List α} {offset len : Nat}
    (whole : (slice values offset len).length = len) :
    slice (values ++ rest) offset len = slice values offset len := by
  have enough : len ≤ (values.drop offset).length := by
    rw [slice, length_take] at whole
    omega
  rw [slice, slice, drop_append, take_append_of_le_length enough]

theorem copyInto_append {data rest : List α} {offset : Nat}
    (bound : offset + data.length ≤ values.length) :
    copyInto (values ++ rest) offset data = copyInto values offset data ++ rest := by
  rw [copyInto, copyInto, take_append_of_le_length (by omega),
    drop_append_of_le_length bound, append_assoc _ _ rest]

theorem drop_copyInto
    (bound : offset + data.length ≤ values.length) (past : offset + data.length ≤ start) :
    (copyInto values offset data).drop start = values.drop start := by
  have front : (values.take offset ++ data).length = offset + data.length := by
    rw [length_append, length_take, Nat.min_eq_left (by omega)]
  rw [copyInto, drop_append, front,
    drop_of_length_le (Nat.le_trans (Nat.le_of_eq front) past), drop_drop,
    Nat.add_sub_cancel' past, nil_append]

theorem drop_copyInto_add (bound : start + offset ≤ values.length) :
    (copyInto values (start + offset) data).drop start =
      copyInto (values.drop start) offset data := by
  have front : start ≤ (values.take (start + offset)).length := by
    rw [length_take, Nat.min_eq_left bound]
    omega
  rw [copyInto, append_assoc, drop_append_of_le_length front, drop_take,
    Nat.add_sub_cancel_left, copyInto, drop_drop, append_assoc, Nat.add_assoc]

theorem slice_copyInto (bound : offset + data.length ≤ values.length)
    (apart : start + len ≤ offset ∨ offset + data.length ≤ start) :
    slice (copyInto values offset data) start len = slice values start len := by
  rcases apart with before | past
  · have front : slice (values.take offset) start len = slice values start len := by
      rw [slice, slice, drop_take, take_take, Nat.min_eq_left (by omega)]
    rw [copyInto, append_assoc, slice_append, front]
    rw [front, length_slice _ _ _ (by omega)]
  · rw [slice, slice, drop_copyInto bound past]

theorem slice_copyInto_self {offset : Nat} (bound : offset + data.length ≤ values.length) :
    slice (copyInto values offset data) offset data.length = data := by
  have front : (values.take offset).length = offset := by
    rw [length_take, Nat.min_eq_left (by omega)]
  rw [slice, copyInto, append_assoc, drop_left' front, take_left]

def patch (values : List α) (patches : List (Nat × List α)) : List α :=
  patches.foldl (fun values patch => copyInto values patch.1 patch.2) values

section Patches

variable {patches : List (Nat × List α)} {start : Nat}
  (bound : ∀ patch ∈ patches, patch.1 + patch.2.length ≤ values.length)

include bound

theorem length_patch : (patch values patches).length = values.length := by
  induction patches generalizing values with
  | nil => rfl
  | cons first rest ih =>
    obtain ⟨inside, bound⟩ := forall_mem_cons.mp bound
    have same := length_copyInto values first.1 first.2 inside
    rw [patch, foldl_cons, ← patch, ih (same.symm ▸ bound), same]

theorem slice_patch
    (apart : ∀ patch ∈ patches, start + len ≤ patch.1 ∨ patch.1 + patch.2.length ≤ start) :
    slice (patch values patches) start len = slice values start len := by
  induction patches generalizing values with
  | nil => rfl
  | cons first rest ih =>
    obtain ⟨inside, bound⟩ := forall_mem_cons.mp bound
    obtain ⟨away, apart⟩ := forall_mem_cons.mp apart
    have same := length_copyInto values first.1 first.2 inside
    rw [patch, foldl_cons, ← patch, ih (same.symm ▸ bound) apart,
      slice_copyInto inside away]

omit bound in
theorem slice_patch_self {before after : List (Nat × List α)} {data : List α}
    (size : data.length = len)
    (bound : ∀ patch ∈ before ++ (start, data) :: after,
      patch.1 + patch.2.length ≤ values.length)
    (apart : ∀ patch ∈ after, start + len ≤ patch.1 ∨ patch.1 + patch.2.length ≤ start) :
    slice (patch values (before ++ (start, data) :: after)) start len = data := by
  obtain ⟨earlier, bound⟩ := forall_mem_append.mp bound
  obtain ⟨inside, later⟩ := forall_mem_cons.mp bound
  have same := length_patch earlier
  have written := length_copyInto (patch values before) start data (same.symm ▸ inside)
  rw [patch, foldl_append, foldl_cons, ← patch, ← patch,
    slice_patch (written.trans same ▸ later) apart, ← size]
  exact slice_copyInto_self (same.symm ▸ inside)

end Patches

theorem eq_of_flatMap_eq {pairs : List (List α × List α)} (weight : α → Nat)
    (each : ∀ pair ∈ pairs, pair.1 = pair.2 ∨
      (∀ value ∈ pair.1 ++ pair.2, 0 < weight value) ∧
        (pair.1.map weight).sum ≤ (pair.2.map weight).sum)
    (total : pairs.flatMap Prod.fst = pairs.flatMap Prod.snd) :
    ∀ pair ∈ pairs, pair.1 = pair.2 := by
  have lighter (pairs : List (List α × List α))
      (each : ∀ pair ∈ pairs, (pair.1.map weight).sum ≤ (pair.2.map weight).sum) :
      ((pairs.flatMap Prod.fst).map weight).sum ≤ ((pairs.flatMap Prod.snd).map weight).sum := by
    induction pairs with
    | nil => exact Nat.le_refl _
    | cons pair rest ih =>
      obtain ⟨first, each⟩ := forall_mem_cons.mp each
      simp only [flatMap_cons, map_append, sum_append]
      exact Nat.add_le_add first (ih each)
  have weightless (values : List α) (positive : ∀ value ∈ values, 0 < weight value)
      (zero : (values.map weight).sum = 0) : values = [] := by
    cases values with
    | nil => rfl
    | cons value rest =>
      have := positive value mem_cons_self
      rw [map_cons, sum_cons] at zero
      omega
  induction pairs with
  | nil => exact fun _ member => absurd member not_mem_nil
  | cons pair rest ih =>
    obtain ⟨first, each⟩ := List.forall_mem_cons.mp each
    rw [flatMap_cons, flatMap_cons] at total
    have same : pair.1 = pair.2 := by
      rcases first with same | ⟨positive, light⟩
      · exact same
      · have others := lighter rest fun pair member => (each pair member).elim
          (fun same => Nat.le_of_eq (by rw [same])) And.right
        have sums := congrArg (fun values => (values.map weight).sum) total
        rcases append_eq_append_iff.mp total with ⟨more, longer, -⟩ | ⟨more, longer, -⟩ <;>
          rw [longer] at sums light positive ⊢ <;>
          simp only [map_append, List.sum_append] at sums light
        · rw [weightless more (fun value member => positive value (by simp [member])) (by omega),
            append_nil]
        · rw [weightless more (fun value member => positive value (by simp [member])) (by omega),
            append_nil]
    rw [same, append_cancel_left_eq] at total
    exact List.forall_mem_cons.mpr ⟨same, ih each total⟩

theorem length_filter_le_one {related : α → α → Prop} (pairs : values.Pairwise related)
    {property : α → Bool}
    (exclusive : ∀ first second, property first = true → property second = true →
      ¬ related first second) : (values.filter property).length ≤ 1 := by
  have kept := pairs.filter property
  have all : ∀ value ∈ values.filter property, property value = true :=
    fun value member => (mem_filter.mp member).2
  generalize values.filter property = filtered at kept all
  match filtered with
  | [] => exact Nat.zero_le 1
  | [_] => exact Nat.le_refl 1
  | first :: second :: rest =>
    have pair := (pairwise_cons.mp kept).1 second mem_cons_self
    exact absurd pair (exclusive first second (all first mem_cons_self)
      (all second (mem_cons_of_mem _ mem_cons_self)))

end ArrayList
