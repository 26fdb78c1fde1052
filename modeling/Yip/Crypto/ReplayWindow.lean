/-
This file models the sliding replay window of `yip-crypto` and settles what it rejects.
-/

import Yip.Lib.Machine
import Yip.Lib.BitRing

namespace Yip.Crypto

/-- How many counters a window looks back. -/
inductive ReplayProfile where
  | standard
  | highThroughput
  deriving DecidableEq, Repr

namespace ReplayProfile

def bits : ReplayProfile → Nat
  | standard => 8192
  | highThroughput => 131072

def words : ReplayProfile → Nat
  | standard => 128
  | highThroughput => 2048

variable (profile : ReplayProfile)

theorem bits_eq : profile.bits = 64 * profile.words := by
  cases profile <;> rfl

theorem words_pos : 0 < profile.words := by
  cases profile <;> decide

theorem and_words_sub_one (word : Nat) : word &&& (profile.words - 1) = word % profile.words := by
  cases profile with
  | standard => exact Nat.and_two_pow_sub_one_eq_mod word 7
  | highThroughput => exact Nat.and_two_pow_sub_one_eq_mod word 11

end ReplayProfile

/-- The counters seen lately, as a ring of words below the greatest one. -/
@[ext]
structure ReplayWindow where
  profile : ReplayProfile
  latest : Nat
  bitmap : List (BitVec 64)
  started : Bool
  sized : bitmap.length = profile.words

namespace ReplayWindow

def newWithProfile (profile : ReplayProfile) : ReplayWindow where
  profile := profile
  latest := 0
  bitmap := List.replicate profile.words 0
  started := false
  sized := List.length_replicate

def new : ReplayWindow := newWithProfile .highThroughput

variable (bitmap : List (BitVec 64))

def wordIdx (bitmap : List (BitVec 64)) (counter : Nat) : Nat :=
  counter / 64 &&& (bitmap.length - 1)

def bitMask (counter : Nat) : BitVec 64 := 1#64 <<< (counter % 64)

/-- Whether this counter may still be accepted. -/
def check (window : ReplayWindow) (counter : Nat) : Bool :=
  if !window.started then true
  else if counter > window.latest then true
  else
    let diff := window.latest - counter
    if diff ≥ window.profile.bits then false
    else window.bitmap.getD (wordIdx window.bitmap counter) 0 &&& bitMask counter == 0

/-- Clears the words the window moves over. -/
def clearOvertaken (bitmap : List (BitVec 64)) (oldWord : Nat) : Nat → List (BitVec 64)
  | 0 => bitmap
  | w + 1 => (clearOvertaken bitmap oldWord w).set
      ((oldWord + (w + 1)) &&& (bitmap.length - 1)) 0

/-- The ring when a greater counter moves the window. -/
def advance (window : ReplayWindow) (counter : Nat) : List (BitVec 64) :=
  if counter - window.latest ≥ window.profile.bits then
    List.replicate window.bitmap.length 0
  else
    let oldWord := window.latest / 64
    let newWord := counter / 64
    if newWord > oldWord then
      clearOvertaken window.bitmap oldWord (min (newWord - oldWord) window.bitmap.length)
    else window.bitmap

def setBit (bitmap : List (BitVec 64)) (counter : Nat) : List (BitVec 64) :=
  bitmap.set (wordIdx bitmap counter)
    (bitmap.getD (wordIdx bitmap counter) 0 ||| bitMask counter)

@[simp]
theorem length_clearOvertaken (oldWord count : Nat) :
    (clearOvertaken bitmap oldWord count).length = bitmap.length := by
  induction count with
  | zero => rfl
  | succ count ih => simp [clearOvertaken, ih]

@[simp]
theorem length_advance (window : ReplayWindow) (counter : Nat) :
    (window.advance counter).length = window.bitmap.length := by
  unfold advance
  split
  · exact List.length_replicate
  · dsimp only
    split
    · exact length_clearOvertaken _ _ _
    · rfl

@[simp]
theorem length_setBit (counter : Nat) : (setBit bitmap counter).length = bitmap.length := by
  simp [setBit]

def commit (window : ReplayWindow) (counter : Nat) : ReplayWindow :=
  if !window.started then
    { window with
      started := true
      latest := counter
      bitmap := window.bitmap.set (wordIdx window.bitmap counter) (bitMask counter)
      sized := by rw [List.length_set, window.sized] }
  else if counter > window.latest then
    { window with
      latest := counter
      bitmap := setBit (window.advance counter) counter
      sized := by rw [length_setBit, length_advance, window.sized] }
  else if window.latest - counter < window.profile.bits then
    { window with
      bitmap := setBit window.bitmap counter
      sized := by rw [length_setBit, window.sized] }
  else window

def checkAndSet (window : ReplayWindow) (counter : Nat) : ReplayWindow × Bool :=
  if window.check counter then (window.commit counter, true) else (window, false)

/-! ### The ring of a window -/

section Ring

variable {profile : ReplayProfile} {bitmap : List (BitVec 64)}
  (sized : bitmap.length = profile.words)

include sized

theorem wordIdx_eq (counter : Nat) : wordIdx bitmap counter = counter / 64 % bitmap.length := by
  rw [wordIdx, sized, profile.and_words_sub_one]

theorem setBit_eq (counter : Nat) : setBit bitmap counter = BitRing.mark bitmap counter := by
  rw [setBit, wordIdx_eq sized, BitRing.mark, bitMask]

theorem clearOvertaken_eq (oldWord count : Nat) :
    clearOvertaken bitmap oldWord count = BitRing.clearAfter bitmap oldWord count := by
  induction count with
  | zero => rfl
  | succ count ih =>
    rw [clearOvertaken, BitRing.clearAfter, ih, sized,
      profile.and_words_sub_one]

end Ring

theorem bitmap_nonempty (window : ReplayWindow) : 0 < window.bitmap.length := by
  rw [window.sized]
  exact window.profile.words_pos

theorem check_eq_false_iff (window : ReplayWindow) (counter : Nat) :
    window.check counter = false ↔
      window.started = true ∧ counter ≤ window.latest ∧
        (window.profile.bits ≤ window.latest - counter ∨
          BitRing.bit window.bitmap counter = true) := by
  have masked : (window.bitmap.getD (wordIdx window.bitmap counter) 0 &&& bitMask counter == 0) =
      !BitRing.bit window.bitmap counter := by
    rw [Bool.eq_iff_iff, beq_iff_eq, wordIdx_eq window.sized, bitMask,
      BitRing.and_one_shiftLeft_eq_zero _ _ (Nat.mod_lt _ (by decide)), BitRing.bit,
      Bool.not_eq_true']
  unfold check
  rw [masked]
  by_cases started : window.started = true <;> by_cases newer : counter > window.latest <;>
    by_cases old : window.latest - counter ≥ window.profile.bits <;>
    simp [started, newer, old, not_lt.mp]

/-- A counter the window takes for one of the word that replaced its own. -/
def Aliased (window : ReplayWindow) (counter : Nat) : Prop :=
  window.started = true ∧ counter ≤ window.latest ∧
    window.latest - counter < window.profile.bits ∧
    counter / 64 + window.profile.words ≤ window.latest / 64

instance (window : ReplayWindow) (counter : Nat) : Decidable (window.Aliased counter) := by
  unfold Aliased
  infer_instance

/-! ### What the window remembers -/

/-- A counter whose word is still in the ring. -/
def Covers (window : ReplayWindow) (counter : Nat) : Prop :=
  counter / 64 ≤ window.latest / 64 ∧ window.latest / 64 < counter / 64 + window.profile.words

/-- The window knows exactly which of the counters it covers were seen. -/
structure Remembers (window : ReplayWindow) (seen : List Nat) : Prop where
  untouched : window.started = false →
    seen = [] ∧ window.bitmap = List.replicate window.profile.words 0
  bounded : ∀ counter ∈ seen, counter ≤ window.latest
  exact : window.started = true → ∀ counter, window.Covers counter →
    (BitRing.bit window.bitmap counter = true ↔ counter ∈ seen)

theorem remembers_new (profile : ReplayProfile) : (newWithProfile profile).Remembers [] where
  untouched := fun _ => ⟨rfl, rfl⟩
  bounded := by simp
  exact := by simp [newWithProfile]

section

variable (window : ReplayWindow)

include window

theorem eq_of_same_bit (first second : Nat) (firstCovered : window.Covers first)
    (secondCovered : window.Covers second)
    (slot : first / 64 % window.bitmap.length = second / 64 % window.bitmap.length)
    (offset : first % 64 = second % 64) : first = second := by
  rw [window.sized] at slot
  obtain ⟨firstUpper, firstLower⟩ := firstCovered
  obtain ⟨secondUpper, secondLower⟩ := secondCovered
  have sameWord : first / 64 = second / 64 := by
    rcases Nat.lt_trichotomy (first / 64) (second / 64) with less | equal | greater
    · exact absurd slot (BitRing.slot_ne_of_near _ _ _ less (by omega))
    · exact equal
    · exact absurd slot.symm (BitRing.slot_ne_of_near _ _ _ greater (by omega))
  omega

theorem bit_advance (counter position : Nat) (newer : window.latest < counter)
    (below : position / 64 ≤ counter / 64)
    (near : counter / 64 < position / 64 + window.profile.words) :
    BitRing.bit (window.advance counter) position = true ↔
      position / 64 ≤ window.latest / 64 ∧ BitRing.bit window.bitmap position = true := by
  have bits := window.profile.bits_eq
  unfold advance
  split
  · rename_i leap
    rw [BitRing.bit_replicate_zero]
    -- a leap of a whole window leaves no old word covered
    have gone : ¬ position / 64 ≤ window.latest / 64 := by omega
    simp [gone]
  · dsimp only
    split
    · rename_i entered
      rw [clearOvertaken_eq window.sized,
        BitRing.bit_clearAfter _ window.bitmap_nonempty, window.sized, and_comm]
      refine and_congr_left fun _ => ?_
      constructor
      · intro kept
        by_contra fresh
        refine kept (position / 64 - window.latest / 64) (by omega) (by omega) ?_
        congr 1
        omega
      · intro old offset low high equal
        rw [eq_comm] at equal
        exact BitRing.slot_ne_of_near _ (position / 64) (window.latest / 64 + offset)
          (by omega) (by omega) equal
    · rename_i same
      have covered : position / 64 ≤ window.latest / 64 := by omega
      simp [covered]

theorem bit_mark_covered (base : List (BitVec 64)) (sized : base.length = window.bitmap.length)
    (counter position : Nat) (counterCovered : window.Covers counter)
    (positionCovered : window.Covers position) :
    BitRing.bit (setBit base counter) position = true ↔
      position = counter ∨ BitRing.bit base position = true := by
  rw [setBit_eq (sized.trans window.sized), BitRing.bit_mark _ (sized ▸ window.bitmap_nonempty),
    Bool.or_eq_true, decide_eq_true_iff, or_comm]
  refine or_congr_left ⟨?_, ?_⟩
  · rintro ⟨slot, offset⟩
    rw [sized] at slot
    exact (window.eq_of_same_bit _ _ counterCovered positionCovered slot offset).symm
  · rintro rfl
    exact ⟨rfl, rfl⟩

theorem commit_started (counter : Nat) : (window.commit counter).started = true := by
  unfold commit
  split
  · rfl
  · rename_i started
    have started : window.started = true := by simpa using started
    split
    · exact started
    · split <;> exact started

theorem commit_profile (counter : Nat) : (window.commit counter).profile = window.profile := by
  unfold commit
  split_ifs <;> rfl

theorem commit_latest (counter : Nat) :
    (window.commit counter).latest =
      if window.started then max window.latest counter else counter := by
  unfold commit
  by_cases started : window.started = true
  · by_cases newer : counter > window.latest
    · simp [started, newer, newer.le]
    · have older : counter ≤ window.latest := not_lt.mp newer
      rw [if_pos started, max_eq_left older, started, if_neg (by simp), if_neg newer]
      split <;> rfl
  · simp [started]

theorem commit_first (seen : List Nat) (counter : Nat) (remembers : window.Remembers seen)
    (fresh : window.started = false) : (window.commit counter).Remembers [counter] := by
  obtain ⟨-, empty⟩ := remembers.untouched fresh
  have stored : (window.commit counter).bitmap = setBit window.bitmap counter := by
    simp [commit, fresh, setBit, empty]
  have latest : (window.commit counter).latest = counter := by simp [commit, fresh]
  have profile : (window.commit counter).profile = window.profile := by simp [commit, fresh]
  have positive := window.profile.words_pos
  have covered : (window.commit counter).Covers counter := by
    rw [Covers, latest, profile]
    omega
  refine ⟨fun unset => by simp [commit, fresh] at unset, ?_, ?_⟩
  · intro other member
    rw [latest, List.mem_singleton.mp member]
  · intro _ position positionCovered
    rw [stored, bit_mark_covered (window.commit counter) _ (by simp [stored]) _ _ covered
      positionCovered, empty, BitRing.bit_replicate_zero]
    simp

theorem commit_newer (seen : List Nat) (counter : Nat) (remembers : window.Remembers seen)
    (started : window.started = true) (newer : window.latest < counter) :
    (window.commit counter).Remembers (counter :: seen) := by
  have stored : (window.commit counter).bitmap = setBit (window.advance counter) counter := by
    simp [commit, started, newer]
  have latest : (window.commit counter).latest = counter := by simp [commit, started, newer]
  have profile : (window.commit counter).profile = window.profile := by
    simp [commit, started, newer]
  have positive := window.profile.words_pos
  have covered : (window.commit counter).Covers counter := by
    rw [Covers, latest, profile]
    omega
  refine ⟨fun unset => by simp [commit_started] at unset, ?_, ?_⟩
  · rw [latest]
    refine List.forall_mem_cons.mpr ⟨le_rfl, fun other earlier => ?_⟩
    exact (remembers.bounded other earlier).trans newer.le
  · intro _ position positionCovered
    rw [stored, bit_mark_covered (window.commit counter) _ (by simp [stored]) _ _ covered
      positionCovered, List.mem_cons]
    rw [Covers, latest, profile] at positionCovered
    rw [bit_advance window counter position newer positionCovered.1 positionCovered.2]
    refine or_congr_right ⟨?_, ?_⟩
    · rintro ⟨old, set⟩
      exact (remembers.exact started position ⟨old, by omega⟩).mp set
    · intro member
      have upper := remembers.bounded position member
      have old : position / 64 ≤ window.latest / 64 := Nat.div_le_div_right upper
      exact ⟨old, (remembers.exact started position ⟨old, by omega⟩).mpr member⟩

theorem commit_older (seen : List Nat) (counter : Nat) (remembers : window.Remembers seen)
    (started : window.started = true) (older : counter ≤ window.latest)
    (inside : window.latest - counter < window.profile.bits) (covered : window.Covers counter) :
    (window.commit counter).Remembers (counter :: seen) := by
  have result : window.commit counter =
      { window with
        bitmap := setBit window.bitmap counter
        sized := by rw [length_setBit, window.sized] } := by
    simp [commit, started, older, inside]
  rw [result]
  refine ⟨fun unset => by simp [started] at unset, ?_, ?_⟩
  · exact List.forall_mem_cons.mpr ⟨older, remembers.bounded⟩
  · intro _ position positionCovered
    rw [bit_mark_covered window _ rfl _ _ covered positionCovered, List.mem_cons,
      remembers.exact started position positionCovered]

theorem covers_of_not_aliased (counter : Nat) (started : window.started = true)
    (older : counter ≤ window.latest) (inside : window.latest - counter < window.profile.bits)
    (notAliased : ¬ window.Aliased counter) : window.Covers counter := by
  refine ⟨Nat.div_le_div_right older, ?_⟩
  by_contra outside
  exact notAliased ⟨started, older, inside, by omega⟩

end

variable {counter : Nat} {window : ReplayWindow} {seen : List Nat}

theorem Remembers.commit (remembers : window.Remembers seen) (notAliased : ¬ window.Aliased counter)
    (accepted : window.check counter = true) :
    (window.commit counter).Remembers (counter :: seen) := by
  by_cases started : window.started = true
  · by_cases newer : window.latest < counter
    · exact commit_newer window seen counter remembers started newer
    · have inside : window.latest - counter < window.profile.bits := by
        by_contra old
        have rejected : window.check counter = false :=
          (window.check_eq_false_iff counter).mpr ⟨started, by omega, Or.inl (by omega)⟩
        rw [accepted] at rejected
        cases rejected
      exact commit_older window seen counter remembers started (by omega) inside
        (window.covers_of_not_aliased counter started (by omega) inside notAliased)
  · have fresh : window.started = false := by simpa using started
    rw [(remembers.untouched fresh).1]
    exact commit_first window seen counter remembers fresh

theorem Remembers.bit_of_aliased (remembers : window.Remembers seen)
    (aliased : window.Aliased counter) : BitRing.bit window.bitmap counter = false := by
  obtain ⟨started, -, inside, behind⟩ := aliased
  have bits := window.profile.bits_eq
  have shared : BitRing.bit window.bitmap (counter + 64 * window.profile.words) =
      BitRing.bit window.bitmap counter := by
    rw [BitRing.bit, BitRing.bit, Nat.add_mul_div_left _ _ (by decide), window.sized,
      Nat.add_mod_right, Nat.add_mul_mod_self_left]
  have covered : window.Covers (counter + 64 * window.profile.words) := by
    constructor <;> omega
  rw [← shared, ← Bool.not_eq_true, remembers.exact started _ covered]
  intro member
  have reached := remembers.bounded _ member
  omega

theorem Remembers.check_eq_false_iff (remembers : window.Remembers seen) (member : counter ∈ seen) :
    window.check counter = false ↔ ¬ window.Aliased counter := by
  have older := remembers.bounded counter member
  have started : window.started = true := by
    by_contra unset
    rw [(remembers.untouched (by simpa using unset)).1] at member
    cases member
  rw [ReplayWindow.check_eq_false_iff]
  constructor
  · rintro ⟨-, -, old | set⟩ aliased
    · have inside := aliased.2.2.1
      omega
    · rw [remembers.bit_of_aliased aliased] at set
      cases set
  · intro notAliased
    refine ⟨started, older, ?_⟩
    by_cases inside : window.latest - counter < window.profile.bits
    · right
      exact (remembers.exact started counter
        (window.covers_of_not_aliased counter started older inside notAliased)).mpr member
    · left
      omega

theorem Remembers.check_of_fresh (remembers : window.Remembers seen) (fresh : counter ∉ seen)
    (near : window.latest < counter + window.profile.bits) : window.check counter = true := by
  rw [← Bool.not_eq_false, ReplayWindow.check_eq_false_iff]
  rintro ⟨started, older, old | set⟩
  · omega
  · by_cases aliased : window.Aliased counter
    · rw [remembers.bit_of_aliased aliased] at set
      cases set
    · have covered :=
        window.covers_of_not_aliased counter started older (by omega) aliased
      exact fresh ((remembers.exact started counter covered).mp set)

/-! ### Runs of a window -/

/-- A window and the counters it accepted. -/
structure Trace where
  window : ReplayWindow
  accepted : List Nat

namespace Trace

def start (profile : ReplayProfile) : Trace := ⟨newWithProfile profile, []⟩

def step (trace : Trace) (counter : Nat) : Trace :=
  let result := trace.window.checkAndSet counter
  ⟨result.1, if result.2 then counter :: trace.accepted else trace.accepted⟩

/-- The window remembers what it accepted, and accepted nothing twice. -/
def Sound (trace : Trace) : Prop :=
  trace.window.Remembers trace.accepted ∧ trace.accepted.Nodup

theorem step_sound (trace : Trace) (counter : Nat) (sound : trace.Sound)
    (notAliased : ¬ trace.window.Aliased counter) : (trace.step counter).Sound := by
  obtain ⟨remembers, nodup⟩ := sound
  unfold step checkAndSet
  by_cases accepted : trace.window.check counter = true
  · have fresh : counter ∉ trace.accepted := by
      intro member
      rw [(remembers.check_eq_false_iff member).mpr notAliased] at accepted
      cases accepted
    simp only [accepted, if_true]
    exact ⟨remembers.commit notAliased accepted, List.nodup_cons.mpr ⟨fresh, nodup⟩⟩
  · simp only [accepted, if_false, Bool.false_eq_true]
    exact ⟨remembers, nodup⟩

variable {profile : ReplayProfile}

theorem run_sound {counters : List Nat}
    (admissible : Machine.Admissible step (fun trace counter => ¬ trace.window.Aliased counter)
      (start profile) counters) : (Machine.run step (start profile) counters).Sound :=
  Machine.run_invariant step _ Sound
    (fun trace counter sound allowed => step_sound trace counter sound allowed)
    (start profile) counters ⟨remembers_new profile, List.nodup_nil⟩ admissible

structure Follows (profile : ReplayProfile) (trace : Trace) : Prop where
  profile : trace.window.profile = profile
  untouched : trace.window.started = false → trace.accepted = []
  greatest : ∀ counter ∈ trace.accepted, counter ≤ trace.window.latest
  reached : trace.window.started = true → trace.window.latest ∈ trace.accepted

theorem step_follows {trace : Trace} (counter : Nat)
    (follows : trace.Follows profile) : (trace.step counter).Follows profile := by
  unfold step checkAndSet
  by_cases accepted : trace.window.check counter = true
  · simp only [accepted, if_true]
    refine ⟨(trace.window.commit_profile counter).trans follows.profile,
      fun unset => by simp [commit_started] at unset, ?_, fun _ => ?_⟩
    · intro other member
      rw [commit_latest]
      rcases List.mem_cons.mp member with rfl | earlier
      · split
        · exact le_max_right _ _
        · exact le_rfl
      · split
        · exact (follows.greatest other earlier).trans (le_max_left _ _)
        · rename_i unset
          rw [follows.untouched (by simpa using unset)] at earlier
          cases earlier
    · rw [commit_latest]
      split
      · rename_i started
        rcases max_choice trace.window.latest counter with old | new
        · rw [old]
          exact List.mem_cons_of_mem _ (follows.reached started)
        · rw [new]
          exact List.mem_cons_self
      · exact List.mem_cons_self
  · simp only [accepted, if_false, Bool.false_eq_true]
    exact follows

theorem run_follows (profile : ReplayProfile) (counters : List Nat) :
    (Machine.run step (start profile) counters).Follows profile := by
  induction counters using List.reverseRecOn with
  | nil => exact ⟨rfl, fun _ => rfl, nofun, nofun⟩
  | append_singleton earlier counter ih =>
    rw [Machine.run_append]
    exact step_follows counter ih

/-- Along every run that presents no aliased counter, no counter is accepted twice, and in the
state reached a counter accepted before is rejected exactly when it is not aliased. -/
theorem accepted_once_unless_aliased (profile : ReplayProfile) (counters : List Nat)
    (admissible : Machine.Admissible step (fun trace counter => ¬ trace.window.Aliased counter)
      (start profile) counters) :
    (Machine.run step (start profile) counters).accepted.Nodup ∧
      ∀ counter ∈ (Machine.run step (start profile) counters).accepted,
        (Machine.run step (start profile) counters).window.check counter = false ↔
          ¬ (Machine.run step (start profile) counters).window.Aliased counter := by
  have sound := run_sound admissible
  exact ⟨sound.2, fun counter member => sound.1.check_eq_false_iff member⟩

theorem accepted_once_across_wrap :
    Machine.Admissible step (fun trace counter => ¬ trace.window.Aliased counter)
        (start .standard) [1, 8191, 1, 8192, 64, 64] ∧
      (Machine.run step (start .standard) [1, 8191, 1, 8192, 64, 64]).accepted.Nodup := by
  have admissible : Machine.Admissible step
      (fun trace counter => ¬ trace.window.Aliased counter)
      (start .standard) [1, 8191, 1, 8192, 64, 64] := by
    decide +kernel
  exact ⟨admissible, (accepted_once_unless_aliased _ _ admissible).1⟩

/-- Counter 1 is inside the window of 8192, but entering the word of 8192 has cleared the slot the
two words share: it is accepted a second time. -/
theorem aliased_counter_accepted_twice :
    (Machine.run step (start .standard) [1, 8192, 1]).accepted = [1, 8192, 1] := by
  decide +kernel

/-- Along every run that presents no aliased counter, a counter that was not accepted is accepted
by the next check if it is above every accepted one, or less than the window below the greatest. -/
theorem fresh_accepted_unless_aliased (profile : ReplayProfile) (counters : List Nat)
    (admissible : Machine.Admissible step (fun trace counter => ¬ trace.window.Aliased counter)
      (start profile) counters) (counter : Nat)
    (fresh : counter ∉ (Machine.run step (start profile) counters).accepted)
    (near : ∀ newest ∈ (Machine.run step (start profile) counters).accepted,
      newest < counter + profile.bits) :
    (Machine.run step (start profile) counters).window.check counter = true := by
  have sound := run_sound admissible
  have follows := run_follows profile counters
  by_cases started : (Machine.run step (start profile) counters).window.started = true
  · refine sound.1.check_of_fresh fresh ?_
    rw [follows.profile]
    exact near _ (follows.reached started)
  · simp [check, started]

theorem skipped_counter_accepted_later :
    Machine.Admissible step (fun trace counter => ¬ trace.window.Aliased counter)
        (start .standard) [0, 8191, 8193] ∧
      (Machine.run step (start .standard) [0, 8191, 8193]).window.check 64 = true := by
  have admissible : Machine.Admissible step
      (fun trace counter => ¬ trace.window.Aliased counter)
      (start .standard) [0, 8191, 8193] := by
    decide +kernel
  exact ⟨admissible, fresh_accepted_unless_aliased _ _ admissible 64 (by decide +kernel)
    (by decide +kernel)⟩

/-- Counter 1 shares its bit with counter 8193, which is ahead when 1 is accepted. Once 8194 is
accepted, 8193 passes for a counter that was seen. -/
theorem aliased_counter_blocks_fresh :
    let reached := Machine.run step (start .standard) [8192, 1, 8194]
    8193 ∉ reached.accepted ∧ (∀ newest ∈ reached.accepted, newest < 8193 + 8192) ∧
      reached.window.check 8193 = false := by
  decide +kernel

end Trace

end ReplayWindow

end Yip.Crypto
