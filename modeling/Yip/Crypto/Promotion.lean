/-
This file models the promotion of a replay window to the larger profile
(`promote_to_high_throughput`) and settles which rejections survive it.
-/

import Yip.Crypto.ReplayWindow

namespace Yip.Crypto.ReplayWindow

open List

def copyWords (oldBitmap newBitmap : List (BitVec 64)) (startWord : Nat) : Nat → List (BitVec 64)
  | 0 => newBitmap
  | count + 1 => (copyWords oldBitmap newBitmap startWord count).set
      ((startWord + count) &&& (newBitmap.length - 1))
      (oldBitmap.getD ((startWord + count) &&& (oldBitmap.length - 1)) 0)

@[simp]
theorem length_copyWords (oldBitmap newBitmap : List (BitVec 64)) (startWord count : Nat) :
    (copyWords oldBitmap newBitmap startWord count).length = newBitmap.length := by
  induction count with
  | zero => rfl
  | succ count ih => rw [copyWords, length_set, ih]

def startWord (window : ReplayWindow) : Nat :=
  window.latest / 64 - (window.bitmap.length - 1)

/-- The larger ring, with the last words of the smaller one. -/
def promotedBitmap (window : ReplayWindow) : List (BitVec 64) :=
  let newBitmap := List.replicate ReplayProfile.highThroughput.words 0
  if window.started then
    copyWords window.bitmap newBitmap window.startWord
      (window.latest / 64 + 1 - window.startWord)
  else newBitmap

theorem length_promotedBitmap (window : ReplayWindow) :
    window.promotedBitmap.length = ReplayProfile.highThroughput.words := by
  unfold promotedBitmap
  split
  · rw [length_copyWords, length_replicate]
  · rw [length_replicate]

/-- Grows the window to the larger ring. -/
def promoteToHighThroughput (window : ReplayWindow) : ReplayWindow :=
  if window.profile = .highThroughput then window
  else
    { window with
      profile := .highThroughput
      bitmap := window.promotedBitmap
      sized := window.length_promotedBitmap }

/-! ### The promoted ring -/

variable {window : ReplayWindow}

theorem copyWords_eq (oldSized : window.bitmap.length = window.profile.words)
    {newBitmap : List (BitVec 64)} {profile : ReplayProfile}
    (newSized : newBitmap.length = profile.words) (start count : Nat) :
    copyWords window.bitmap newBitmap start count =
      BitRing.transfer window.bitmap newBitmap start count := by
  induction count with
  | zero => rfl
  | succ count ih =>
    rw [copyWords, BitRing.transfer, ih, oldSized, newSized,
      ReplayProfile.and_words_sub_one, ReplayProfile.and_words_sub_one]

section Started

variable (small : window.profile = .standard) (started : window.started = true)

include small started

theorem promotedBitmap_eq : window.promotedBitmap =
    BitRing.transfer window.bitmap (List.replicate 2048 0) (window.latest / 64 - 127)
      (window.latest / 64 + 1 - (window.latest / 64 - 127)) := by
  have first : window.startWord = window.latest / 64 - 127 := by
    rw [startWord, window.sized, small]
    rfl
  have empty : (replicate 2048 (0 : BitVec 64)).length =
      ReplayProfile.highThroughput.words := length_replicate
  rw [promotedBitmap, if_pos started, first]
  exact copyWords_eq window.sized empty _ _

variable {counter : Nat}

theorem bit_promotedBitmap_of_covers (covered : window.Covers counter) :
    BitRing.bit window.promotedBitmap counter = BitRing.bit window.bitmap counter := by
  obtain ⟨upper, lower⟩ := covered
  rw [small] at lower
  have near : window.latest / 64 < counter / 64 + 128 := lower
  rw [promotedBitmap_eq small started]
  refine BitRing.bit_transfer_of_copied _ _ _ _ _ ?_ (by omega) (by omega)
  rw [length_replicate]
  omega

theorem bit_promotedBitmap_behind (behind : counter / 64 + 128 = window.latest / 64) :
    BitRing.bit window.promotedBitmap counter = false := by
  rw [promotedBitmap_eq small started, BitRing.bit_transfer_of_apart,
    BitRing.bit_replicate_zero]
  · rw [length_replicate]
    decide
  · intro offset less same
    rw [length_replicate] at same
    exact BitRing.slot_ne_of_near 2048 (counter / 64) (window.latest / 64 - 127 + offset)
      (by omega) (by omega) same.symm

theorem promoted_check_eq_false_iff (counter : Nat) :
    window.promoteToHighThroughput.check counter = false ↔
      counter ≤ window.latest ∧ (131072 ≤ window.latest - counter ∨
        BitRing.bit window.promotedBitmap counter = true) := by
  have promoted : window.promoteToHighThroughput =
      { window with
        profile := .highThroughput
        bitmap := window.promotedBitmap
        sized := window.length_promotedBitmap } := by
    rw [promoteToHighThroughput, if_neg (by rw [small]; nofun)]
  rw [promoted, check_eq_false_iff]
  exact and_iff_right started

theorem oldest_accepted_after_promotion (full : 8192 ≤ window.latest) :
    window.check (window.latest - 8192) = false ∧
      window.promoteToHighThroughput.check (window.latest - 8192) = true := by
  constructor
  · rw [check_eq_false_iff, small]
    refine ⟨started, Nat.sub_le _ _, Or.inl ?_⟩
    show 8192 ≤ window.latest - (window.latest - 8192)
    omega
  · rw [← Bool.not_eq_false, promoted_check_eq_false_iff small started,
      bit_promotedBitmap_behind small started (by omega)]
    rintro ⟨-, old | set⟩
    · omega
    · cases set

theorem promotion_keeps_early (early : window.latest < 8192)
    (rejected : window.check counter = false) :
    window.promoteToHighThroughput.check counter = false := by
  obtain ⟨-, older, old | set⟩ := (check_eq_false_iff _ _).mp rejected
  · rw [small] at old
    have far : 8192 ≤ window.latest - counter := old
    omega
  · have covered : window.Covers counter := by
      rw [Covers, small]
      refine ⟨Nat.div_le_div_right older, ?_⟩
      show window.latest / 64 < counter / 64 + 128
      omega
    rw [promoted_check_eq_false_iff small started, bit_promotedBitmap_of_covers small started
      covered]
    exact ⟨older, Or.inr set⟩

end Started

namespace Trace

/-- After every run of a small window, the promotion keeps every rejection if and only if no
counter beyond the small window has been accepted. -/
theorem promotion_keeps_rejections_iff (counters : List Nat) :
    (∀ counter, (Machine.run step (start .standard) counters).window.check counter = false →
      (Machine.run step (start .standard) counters).window.promoteToHighThroughput.check counter =
        false) ↔
      ∀ counter ∈ (Machine.run step (start .standard) counters).accepted, counter < 8192 := by
  have follows := run_follows .standard counters
  generalize Machine.run step (start .standard) counters = trace at follows
  by_cases started : trace.window.started = true
  · constructor
    · intro keeps counter member
      by_contra beyond
      have full : 8192 ≤ trace.window.latest :=
        (not_lt.mp beyond).trans (follows.greatest counter member)
      obtain ⟨rejected, accepted⟩ :=
        oldest_accepted_after_promotion follows.profile started full
      rw [keeps _ rejected] at accepted
      cases accepted
    · intro within counter rejected
      exact promotion_keeps_early follows.profile started
        (within _ (follows.reached started)) rejected
  · have unset : trace.window.started = false := by simpa using started
    refine iff_of_true (fun counter rejected => ?_) ?_
    · rw [check_eq_false_iff] at rejected
      exact absurd rejected.1 started
    · rw [follows.untouched unset]
      nofun

/-- Counter 0 was accepted once and is too old after 8192; the promotion makes it acceptable. -/
theorem promotion_accepts_replay :
    let reached := (Machine.run step (start .standard) [0, 8192]).window
    reached.check 0 = false ∧ reached.promoteToHighThroughput.check 0 = true := by
  decide +kernel

end Trace

end Yip.Crypto.ReplayWindow
