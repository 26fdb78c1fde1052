/-
This file is the loop that a vectorized kernel is: two arrays are taken in blocks of one
register width, and the items that do not fill a register are combined one by one.
-/

import Mathlib.Tactic
import Yip.Lib.Lists

namespace VectorLoop

open ArrayList

variable {α : Type*}

def load (width : Nat) (memory : List α) (offset : Nat) : Option (Vector α width) :=
  if bound : offset + width ≤ memory.length then
    some (Vector.ofFn fun i => memory.get ⟨offset + i, by have := i.isLt; omega⟩)
  else none

def store {width : Nat} (memory : List α) (offset : Nat) (register : Vector α width) :
    Option (List α) :=
  if offset + width ≤ memory.length then some (copyInto memory offset register.toList) else none

def chunkLoop {width : Nat} (combine : Vector α width → Vector α width → Vector α width)
    (src dst : List α) : Nat → Option (List α)
  | 0 => some dst
  | i + 1 => do
    let current ← chunkLoop combine src dst i
    let offset := i * width
    let data ← load width src offset
    let prevDst ← load width current offset
    store current offset (combine prevDst data)

def tailLoop (scalar : α → α → α) (src dst : List α) (remainder : Nat) : Nat → Option (List α)
  | 0 => some dst
  | count + 1 => do
    let current ← tailLoop scalar src dst remainder count
    let s ← src[remainder + count]?
    let d ← current[remainder + count]?
    some (current.set (remainder + count) (scalar d s))

def run {width : Nat} (combine : Vector α width → Vector α width → Vector α width)
    (scalar : α → α → α) (src dst : List α) : Option (List α) := do
  let chunks := src.length / width
  let current ← chunkLoop combine src dst chunks
  let remainder := chunks * width
  tailLoop scalar src current remainder (src.length - remainder)

/-! ### Loads and stores -/

theorem load_eq_some {width : Nat} {memory : List α} {offset : Nat}
    (bound : offset + width ≤ memory.length) :
    ∃ register, load width memory offset = some register ∧
      ∀ i (inside : i < width), memory[offset + i]? = some register[i] := by
  refine ⟨_, dif_pos bound, fun i inside => ?_⟩
  rw [Vector.getElem_ofFn, List.getElem?_eq_getElem (by omega)]
  rfl

theorem store_eq_some {width : Nat} {memory : List α} {offset : Nat} {register : Vector α width}
    (bound : offset + width ≤ memory.length) :
    store memory offset register = some (copyInto memory offset register.toList) := if_pos bound

/-! ### The part of the destination that is done -/

section Done

variable {scalar : α → α → α} {src dst : List α}

def done (scalar : α → α → α) (src dst : List α) (count : Nat) : List α :=
  (List.zipWith scalar dst src).take count ++ dst.drop count

theorem done_zero : done scalar src dst 0 = dst := by simp [done]

theorem done_length (length : src.length = dst.length) :
    done scalar src dst src.length = List.zipWith scalar dst src := by
  rw [done, List.take_of_length_le (by simp), List.drop_of_length_le (by omega), List.append_nil]

theorem length_done (length : src.length = dst.length) {count : Nat} (bound : count ≤ src.length) :
    (done scalar src dst count).length = dst.length := by
  simp only [done, List.length_append, List.length_take, List.length_zipWith, List.length_drop]
  omega

theorem getElem?_done (length : src.length = dst.length) {count : Nat}
    (bound : count ≤ src.length) (j : Nat) :
    (done scalar src dst count)[j]? =
      if j < count then (List.zipWith scalar dst src)[j]? else dst[j]? := by
  have taken : ((List.zipWith scalar dst src).take count).length = count := by
    rw [List.length_take, List.length_zipWith]
    omega
  rw [done, List.getElem?_append, taken]
  split_ifs with early
  · rw [List.getElem?_take_of_lt early]
  · rw [List.getElem?_drop, Nat.add_sub_cancel' (by omega)]

theorem getElem?_zipWith_some {j : Nat} {d s : α} (old : dst[j]? = some d)
    (data : src[j]? = some s) : (List.zipWith scalar dst src)[j]? = some (scalar d s) := by
  rw [List.getElem?_zipWith, old, data]

end Done

/-! ### The loops -/

section Loops

variable {width : Nat} {combine : Vector α width → Vector α width → Vector α width}
  {scalar : α → α → α} {src dst : List α}

theorem copyInto_done (length : src.length = dst.length) {offset : Nat}
    (bound : offset + width ≤ src.length) {register : Vector α width}
    (combined : ∀ i (inside : i < width),
      (List.zipWith scalar dst src)[offset + i]? = some register[i]) :
    copyInto (done scalar src dst offset) offset register.toList =
      done scalar src dst (offset + width) := by
  have whole : (done scalar src dst offset).length = dst.length := length_done length (by omega)
  apply List.ext_getElem?
  intro j
  rw [getElem?_done length bound, copyInto, Vector.length_toList, List.append_assoc,
    List.getElem?_append, List.length_take, whole, Nat.min_eq_left (by omega)]
  by_cases before : j < offset
  · rw [if_pos before, if_pos (by omega), List.getElem?_take_of_lt before,
      getElem?_done length (by omega), if_pos before]
  · rw [if_neg before, List.getElem?_append, Vector.length_toList]
    by_cases inside : j < offset + width
    · obtain ⟨i, rfl⟩ := Nat.exists_eq_add_of_le (Nat.le_of_not_lt before)
      rw [if_pos (by omega), if_pos inside, Nat.add_sub_cancel_left, combined i (by omega)]
      simp [show i < width by omega]
    · rw [if_neg (by omega), if_neg inside, List.getElem?_drop,
        show offset + width + (j - offset - width) = j by omega,
        getElem?_done length (by omega), if_neg before]

variable (length : src.length = dst.length)
  (pointwise : ∀ (prevDst data : Vector α width) (i : Nat) (inside : i < width),
    (combine prevDst data)[i] = scalar prevDst[i] data[i])

include length pointwise

theorem chunkLoop_eq {chunks : Nat} (bound : chunks * width ≤ src.length) :
    chunkLoop combine src dst chunks = some (done scalar src dst (chunks * width)) := by
  induction chunks with
  | zero => rw [chunkLoop, Nat.zero_mul, done_zero]
  | succ i ih =>
    rw [Nat.succ_mul] at bound ⊢
    have whole : (done scalar src dst (i * width)).length = dst.length :=
      length_done length (by omega)
    obtain ⟨data, loaded, dataAt⟩ := load_eq_some bound
    obtain ⟨prevDst, loadedDst, prevAt⟩ :=
      load_eq_some (show i * width + width ≤ (done scalar src dst (i * width)).length by omega)
    rw [chunkLoop, ih (by omega), Option.bind_eq_bind, Option.bind_some]
    simp only [loaded, loadedDst, Option.bind_eq_bind, Option.bind_some]
    rw [store_eq_some (by omega), copyInto_done length bound]
    intro j inside
    have old : dst[i * width + j]? = some prevDst[j] := by
      rw [← prevAt j inside, getElem?_done length (by omega), if_neg (by omega)]
    rw [getElem?_zipWith_some old (dataAt j inside), pointwise]

omit pointwise in
theorem tailLoop_eq {remainder count : Nat} (bound : remainder + count ≤ src.length) :
    tailLoop scalar src (done scalar src dst remainder) remainder count =
      some (done scalar src dst (remainder + count)) := by
  induction count with
  | zero => rfl
  | succ count ih =>
    have inSrc : remainder + count < src.length := by omega
    have inDst : remainder + count < dst.length := by omega
    have current : (done scalar src dst (remainder + count))[remainder + count]? =
        some dst[remainder + count] := by
      rw [getElem?_done length (by omega), if_neg (Nat.lt_irrefl _),
        List.getElem?_eq_getElem inDst]
    rw [tailLoop, ih (by omega), Option.bind_eq_bind, Option.bind_some]
    simp only [List.getElem?_eq_getElem inSrc, current, Option.bind_eq_bind, Option.bind_some]
    congr 1
    apply List.ext_getElem?
    intro j
    rw [List.getElem?_set, getElem?_done length (by omega), getElem?_done length (by omega),
      length_done length (by omega)]
    by_cases here : remainder + count = j
    · subst here
      rw [if_pos rfl, if_pos inDst, if_pos (by omega), getElem?_zipWith_some
        (List.getElem?_eq_getElem inDst) (List.getElem?_eq_getElem inSrc)]
    · rw [if_neg here]
      by_cases early : j < remainder + count
      · rw [if_pos early, if_pos (by omega)]
      · rw [if_neg early, if_neg (by omega)]

theorem run_eq_zipWith : run combine scalar src dst = some (List.zipWith scalar dst src) := by
  have bound : src.length / width * width ≤ src.length := Nat.div_mul_le_self _ _
  rw [run]
  simp only [chunkLoop_eq length pointwise bound, Option.bind_eq_bind, Option.bind_some]
  rw [tailLoop_eq length (by omega), Nat.add_sub_cancel' bound, done_length length]

end Loops

end VectorLoop
