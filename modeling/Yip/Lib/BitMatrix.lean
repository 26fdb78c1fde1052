/-
This file is linear algebra over the two-element field on machine words.
-/

import Mathlib.Tactic

namespace BitMatrix

open List

variable {w : Nat}

def parity (x : BitVec w) : Bool :=
  (List.range w).foldl (fun acc j => acc ^^ x.getLsbD j) false

variable (bits : Nat → Bool)

def place (w : Nat) (bits : Nat → Bool) (j : Nat) : BitVec w := if bits j then 1#w <<< j else 0#w

def ofBits (w : Nat) (bits : Nat → Bool) : BitVec w :=
  (List.range w).foldl (fun acc j => acc ^^^ place w bits j) 0#w

theorem getLsbD_one_shiftLeft (j i : Nat) :
    (1#w <<< j).getLsbD i = (decide (i < w) && decide (i = j)) := by
  rw [BitVec.getLsbD_shiftLeft, BitVec.getLsbD_one]
  by_cases inside : i < w
  · by_cases same : i = j
    · simp [same, show 0 < w by omega]
    · simp only [inside, same, decide_true, decide_false]
      grind
  · simp [inside]

theorem getLsbD_place (j i : Nat) :
    (place w bits j).getLsbD i = (decide (i < w) && decide (i = j) && bits i) := by
  cases set : bits j
  · rw [place, set, if_neg Bool.false_ne_true, BitVec.getLsbD_zero]
    by_cases same : i = j
    · rw [same, set, Bool.and_false]
    · simp [same]
  · rw [place, set, if_pos rfl, getLsbD_one_shiftLeft]
    by_cases same : i = j
    · rw [same, set, Bool.and_true]
    · simp [same]

theorem getLsbD_foldl_place (count i : Nat) :
    ((List.range count).foldl (fun acc j => acc ^^^ place w bits j) 0#w).getLsbD i =
      (decide (i < w) && decide (i < count) && bits i) := by
  induction count with
  | zero => simp
  | succ count ih =>
    rw [range_succ, foldl_append, foldl_cons, foldl_nil, BitVec.getLsbD_xor,
      ih, getLsbD_place]
    by_cases same : i = count
    · simp [same]
    · have earlier : i < count + 1 ↔ i < count := by omega
      simp only [same, earlier, decide_false, Bool.and_false, Bool.false_and, Bool.xor_false]

theorem getLsbD_ofBits {i : Nat} (inside : i < w) : (ofBits w bits).getLsbD i = bits i := by
  rw [ofBits, getLsbD_foldl_place, decide_eq_true inside, Bool.true_and, Bool.true_and]

theorem ofBits_getLsbD (x : BitVec w) : ofBits w x.getLsbD = x :=
  BitVec.eq_of_getLsbD_eq fun _ inside => getLsbD_ofBits _ inside

theorem parity_and_eq (map : BitVec w → Bool) (additive : ∀ x y, map (x ^^^ y) = (map x ^^ map y))
    {row : BitVec w} (columns : ∀ j < w, row.getLsbD j = map (1#w <<< j)) (x : BitVec w) :
    parity (row &&& x) = map x := by
  have zero : map 0#w = false := by
    have twice := additive 0#w 0#w
    rwa [BitVec.xor_self, Bool.xor_self] at twice
  have bit : ∀ j < w, (row &&& x).getLsbD j = map (place w x.getLsbD j) := by
    intro j inside
    rw [BitVec.getLsbD_and, columns j inside, place]
    cases x.getLsbD j
    · simp [zero]
    · simp
  calc parity (row &&& x)
      = (range w).foldl (fun acc j => acc ^^ map (place w x.getLsbD j)) false := by
        refine foldl_ext _ _ _ fun acc j member => ?_
        rw [bit j (mem_range.mp member)]
    _ = (range w).foldl (fun acc j => acc ^^ map (place w x.getLsbD j)) (map 0#w) := by
        rw [zero]
    _ = map (ofBits w x.getLsbD) :=
        foldl_hom map fun acc j => (additive acc (place w x.getLsbD j)).symm
    _ = map x := by rw [ofBits_getLsbD]

end BitMatrix
