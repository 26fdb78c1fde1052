/-
This file is a ring of 64-bit words used as a bitmap over the natural numbers: position `p`
lives at bit `p % 64` of the word in slot `(p / 64) % size`.
-/

import Mathlib.Tactic
import Yip.Lib.Lists

namespace BitRing

def bit (ring : List (BitVec 64)) (position : Nat) : Bool :=
  (ring.getD (position / 64 % ring.length) 0).getLsbD (position % 64)

def mark (ring : List (BitVec 64)) (position : Nat) : List (BitVec 64) :=
  ring.set (position / 64 % ring.length)
    (ring.getD (position / 64 % ring.length) 0 ||| 1#64 <<< (position % 64))

def clearAfter (ring : List (BitVec 64)) (word : Nat) : Nat → List (BitVec 64)
  | 0 => ring
  | count + 1 => (clearAfter ring word count).set ((word + (count + 1)) % ring.length) 0

@[simp]
theorem length_mark (ring : List (BitVec 64)) (position : Nat) :
    (mark ring position).length = ring.length := by
  simp [mark]

@[simp]
theorem length_clearAfter (ring : List (BitVec 64)) (word count : Nat) :
    (clearAfter ring word count).length = ring.length := by
  induction count with
  | zero => rfl
  | succ count ih => simp [clearAfter, ih]

theorem getLsbD_one_shiftLeft (offset other : Nat) (bound : other < 64) :
    (1#64 <<< offset).getLsbD other = decide (offset = other) := by
  rw [BitVec.getLsbD_shiftLeft, BitVec.getLsbD_one]
  by_cases equal : offset = other
  · simp [equal, bound]
  · simp only [equal, decide_false]
    grind

theorem and_one_shiftLeft_eq_zero (word : BitVec 64) (offset : Nat) (bound : offset < 64) :
    word &&& 1#64 <<< offset = 0 ↔ word.getLsbD offset = false := by
  constructor
  · intro zero
    have atOffset := congrArg (fun value => value.getLsbD offset) zero
    simpa [bound] using atOffset
  · intro clear
    apply BitVec.eq_of_getLsbD_eq
    intro index indexBound
    rw [BitVec.getLsbD_and, getLsbD_one_shiftLeft _ _ indexBound]
    by_cases equal : offset = index
    · simp [← equal, clear]
    · simp [equal]

theorem bit_replicate_zero (size position : Nat) :
    bit (List.replicate size 0) position = false := by
  simp [bit]

theorem bit_mark (ring : List (BitVec 64)) (nonempty : 0 < ring.length) (position other : Nat) :
    bit (mark ring position) other =
      (bit ring other ||
        decide (position / 64 % ring.length = other / 64 % ring.length ∧
          position % 64 = other % 64)) := by
  unfold bit
  rw [length_mark, mark, ArrayList.getD_set _ _ _ _ _ (Nat.mod_lt _ nonempty)]
  split
  · rename_i same
    rw [BitVec.getLsbD_or, getLsbD_one_shiftLeft _ _ (Nat.mod_lt _ (by decide)), same]
    simp
  · rename_i different
    simp [different]

theorem bit_clearAfter (ring : List (BitVec 64)) (nonempty : 0 < ring.length)
    (word count position : Nat) :
    bit (clearAfter ring word count) position = true ↔
      bit ring position = true ∧
        ∀ offset, 1 ≤ offset → offset ≤ count →
          (word + offset) % ring.length ≠ position / 64 % ring.length := by
  induction count with
  | zero =>
    have vacuous : ∀ offset, 1 ≤ offset → offset ≤ 0 →
        (word + offset) % ring.length ≠ position / 64 % ring.length := by
      intro offset low high
      omega
    simp only [clearAfter, and_iff_left vacuous]
  | succ count ih =>
    have split : bit (clearAfter ring word (count + 1)) position = true ↔
        (word + (count + 1)) % ring.length ≠ position / 64 % ring.length ∧
          bit (clearAfter ring word count) position = true := by
      unfold bit
      rw [length_clearAfter, length_clearAfter, clearAfter,
        ArrayList.getD_set _ _ _ _ _ (by rw [length_clearAfter]; exact Nat.mod_lt _ nonempty)]
      split
      · rename_i same
        simp [same]
      · rename_i different
        simp [different]
    rw [split, ih]
    constructor
    · rintro ⟨last, set, earlier⟩
      refine ⟨set, fun offset low high => ?_⟩
      rcases Nat.lt_or_eq_of_le high with less | rfl
      · exact earlier offset low (by omega)
      · exact last
    · rintro ⟨set, all⟩
      exact ⟨all _ (by omega) le_rfl, set, fun offset low high => all offset low (by omega)⟩

def transfer (source ring : List (BitVec 64)) (word : Nat) : Nat → List (BitVec 64)
  | 0 => ring
  | count + 1 => (transfer source ring word count).set ((word + count) % ring.length)
      (source.getD ((word + count) % source.length) 0)

variable (source ring : List (BitVec 64))

@[simp]
theorem length_transfer (word count : Nat) :
    (transfer source ring word count).length = ring.length := by
  induction count with
  | zero => rfl
  | succ count ih => rw [transfer, List.length_set, ih]

theorem bit_transfer_succ (nonempty : 0 < ring.length) (word count position : Nat) :
    bit (transfer source ring word (count + 1)) position =
      if (word + count) % ring.length = position / 64 % ring.length then
        (source.getD ((word + count) % source.length) 0).getLsbD (position % 64)
      else bit (transfer source ring word count) position := by
  have inside : (word + count) % ring.length < (transfer source ring word count).length := by
    rw [length_transfer]
    exact Nat.mod_lt _ nonempty
  rw [bit, bit, length_transfer, length_transfer, transfer, ArrayList.getD_set _ _ _ _ _ inside]
  split <;> rfl

theorem bit_transfer_of_apart (nonempty : 0 < ring.length) (word count position : Nat)
    (apart : ∀ offset < count, (word + offset) % ring.length ≠ position / 64 % ring.length) :
    bit (transfer source ring word count) position = bit ring position := by
  induction count with
  | zero => rfl
  | succ count ih =>
    rw [bit_transfer_succ source ring nonempty, if_neg (apart count count.lt_succ_self)]
    exact ih fun offset less => apart offset (less.trans count.lt_succ_self)

theorem slot_ne_of_near (size first second : Nat) (less : first < second)
    (near : second < first + size) : first % size ≠ second % size := by
  intro equal
  have divides : size ∣ second - first := (Nat.modEq_iff_dvd' less.le).mp equal
  have := Nat.le_of_dvd (by omega) divides
  omega

theorem bit_transfer_of_copied (word count position : Nat)
    (fits : count ≤ ring.length) (lower : word ≤ position / 64)
    (upper : position / 64 < word + count) :
    bit (transfer source ring word count) position = bit source position := by
  induction count with
  | zero => omega
  | succ count ih =>
    rw [bit_transfer_succ source ring (by omega)]
    by_cases last : word + count = position / 64
    · rw [if_pos (congrArg (· % ring.length) last), last]
      rfl
    · have less : position / 64 < word + count := by omega
      have apart := slot_ne_of_near ring.length (position / 64) (word + count) less (by omega)
      rw [if_neg apart.symm]
      exact ih (by omega) less

end BitRing
