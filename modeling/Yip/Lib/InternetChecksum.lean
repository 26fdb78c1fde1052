/-
This file is the Internet checksum: the sum of the 16-bit words of a byte string, folded with
end-around carry and complemented.
-/

import Mathlib.Tactic
import Yip.Lib.Lists

namespace InternetChecksum

open ArrayList List

def wordSum : List Nat → Nat
  | [] => 0
  | [high] => 256 * high
  | high :: low :: rest => 256 * high + low + wordSum rest

def fold (sum : Nat) : Nat :=
  if sum / 65536 = 0 then sum else fold (sum % 65536 + sum / 65536)
termination_by sum
decreasing_by omega

def checksum (sum : Nat) : Nat := 65535 - fold sum

theorem fold_spec (sum : Nat) :
    fold sum < 65536 ∧ fold sum % 65535 = sum % 65535 ∧ (fold sum = 0 ↔ sum = 0) := by
  induction sum using fold.induct with
  | case1 sum small =>
    rw [fold, if_pos small]
    exact ⟨by omega, rfl, Iff.rfl⟩
  | case2 sum large ih =>
    rw [fold, if_neg large]
    omega

theorem fold_add_checksum (sum : Nat) : fold (sum + checksum sum) = 65535 := by
  have before := fold_spec sum
  have after := fold_spec (sum + checksum sum)
  unfold checksum at *
  omega

theorem wordSum_append {first : List Nat} (even : first.length % 2 = 0) (second : List Nat) :
    wordSum (first ++ second) = wordSum first + wordSum second := by
  induction first using wordSum.induct with
  | case1 => simp [wordSum]
  | case2 high => simp at even
  | case3 high low rest ih =>
    have shorter : rest.length % 2 = 0 := by
      simp only [length_cons] at even
      omega
    rw [cons_append, cons_append, wordSum, wordSum, ih shorter]
    omega

theorem wordSum_copyInto {bytes : List Nat} {offset high low : Nat} (even : offset % 2 = 0)
    (inside : offset + 2 ≤ bytes.length) :
    wordSum (copyInto bytes offset [high, low]) =
      wordSum (copyInto bytes offset [0, 0]) + (256 * high + low) := by
  have taken : (bytes.take offset).length % 2 = 0 := by
    rw [length_take, min_eq_left (by omega), even]
  simp only [copyInto, append_assoc, wordSum_append taken, cons_append, nil_append,
    wordSum, length_cons, length_nil]
  omega

end InternetChecksum
