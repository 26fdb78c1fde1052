/-
This file models the replay memory of the REALITY front (`reality_replay.rs`): the seals of
recent ClientHellos in a ring of minute buckets per shard.
-/

import Yip.Basic
import Yip.Lib.Lists

namespace Yip.Reality

abbrev Seal := List.Vector Byte 32

inductive Verdict where
  | fresh
  | replay
  deriving DecidableEq, Repr

def unusedMinute : Nat := 2 ^ 64 - 1

def replayWindow : Nat := 20

structure Bucket where
  minute : Nat
  seals : Finset Seal

abbrev Shard := Fin 21 → Bucket

/-- The seals of the last minutes, in sixteen shards. -/
structure ReplayGuard where
  shards : Fin 16 → Shard
  startMin : Nat
  maxBucket : Nat
  overflow : Nat

def shardOf (authSeal : Seal) : Fin 16 :=
  ⟨authSeal.head.toNat &&& 15, Nat.lt_succ_of_le Nat.and_le_right⟩

def slot (minute : Nat) : Fin 21 := ⟨minute % 21, Nat.mod_lt _ (by decide)⟩

namespace Shard

def rotate (shard : Shard) (nowMin : Nat) : Shard :=
  if (shard (slot nowMin)).minute = nowMin then shard
  else Function.update shard (slot nowMin) ⟨nowMin, ∅⟩

def contains (shard : Shard) (authSeal : Seal) (nowMin : Nat) : Bool :=
  decide (∃ index, (shard index).minute ≠ unusedMinute ∧
    nowMin - (shard index).minute ≤ replayWindow ∧ authSeal ∈ (shard index).seals)

def insert (shard : Shard) (authSeal : Seal) (nowMin : Nat) : Shard :=
  Function.update shard (slot nowMin)
    { shard (slot nowMin) with seals := Insert.insert authSeal (shard (slot nowMin)).seals }

end Shard

namespace ReplayGuard

def new (startMin maxBucket : Nat) : ReplayGuard where
  shards := fun _ _ => ⟨unusedMinute, ∅⟩
  startMin := startMin
  maxBucket := maxBucket
  overflow := 0

def store (guard : ReplayGuard) (authSeal : Seal) (shard : Shard) : ReplayGuard :=
  { guard with shards := Function.update guard.shards (shardOf authSeal) shard }

/-- Whether a seal is seen for the first time. -/
def check (guard : ReplayGuard) (authSeal : Seal) (tsMin nowMin : Nat) : Verdict × ReplayGuard :=
  if tsMin < guard.startMin then (.replay, guard)
  else
    let shard := (guard.shards (shardOf authSeal)).rotate nowMin
    if shard.contains authSeal nowMin then (.replay, guard.store authSeal shard)
    else if guard.maxBucket ≤ (shard (slot nowMin)).seals.card then
      -- over the cap the seal counts as a replay
      (.replay, { guard.store authSeal shard with overflow := (guard.overflow + 1) % 2 ^ 64 })
    else (.fresh, guard.store authSeal (shard.insert authSeal nowMin))

end ReplayGuard

structure Arrival where
  authSeal : Seal
  tsMin : Nat
  nowMin : Nat
  deriving DecidableEq

def judge (guard : ReplayGuard) : List Arrival → List (Arrival × Verdict)
  | [] => []
  | arrival :: rest =>
    (arrival, (guard.check arrival.authSeal arrival.tsMin arrival.nowMin).1) ::
      judge (guard.check arrival.authSeal arrival.tsMin arrival.nowMin).2 rest

/-! ### A bucket within the window -/

theorem eq_of_slot_eq {minute nowMin : Nat} (past : minute ≤ nowMin)
    (near : nowMin ≤ minute + replayWindow) (same : slot minute = slot nowMin) :
    minute = nowMin := by
  have equal : minute % 21 = nowMin % 21 := Fin.mk.inj same
  rw [replayWindow] at near
  omega

namespace Shard

variable {shard : Shard} {authSeal other : Seal} {minute nowMin : Nat}

structure Holds (shard : Shard) (authSeal : Seal) (minute : Nat) : Prop where
  minute_eq : (shard (slot minute)).minute = minute
  mem : authSeal ∈ (shard (slot minute)).seals

theorem Holds.rotate (holds : shard.Holds authSeal minute) (past : minute ≤ nowMin)
    (near : nowMin ≤ minute + replayWindow) : (shard.rotate nowMin).Holds authSeal minute := by
  rw [Shard.rotate]
  split
  · exact holds
  · next another =>
    have apart : slot minute ≠ slot nowMin := by
      intro same
      rw [← same, holds.minute_eq] at another
      exact another (eq_of_slot_eq past near same)
    refine ⟨?_, ?_⟩
    · rw [Function.update_of_ne apart, holds.minute_eq]
    · rw [Function.update_of_ne apart]
      exact holds.mem

theorem Holds.insert (holds : shard.Holds authSeal minute) :
    (shard.insert other nowMin).Holds authSeal minute := by
  rw [Shard.insert]
  by_cases same : slot minute = slot nowMin
  · rw [← same]
    refine ⟨?_, ?_⟩
    · rw [Function.update_self, holds.minute_eq]
    · rw [Function.update_self]
      exact Finset.mem_insert_of_mem holds.mem
  · refine ⟨?_, ?_⟩
    · rw [Function.update_of_ne same, holds.minute_eq]
    · rw [Function.update_of_ne same]
      exact holds.mem

theorem Holds.contains (holds : shard.Holds authSeal minute) (real : minute < unusedMinute)
    (near : nowMin ≤ minute + replayWindow) : shard.contains authSeal nowMin = true := by
  refine decide_eq_true ⟨slot minute, ?_, ?_, holds.mem⟩
  · rw [holds.minute_eq]
    exact real.ne
  · rw [holds.minute_eq]
    omega

theorem rotate_minute (shard : Shard) (nowMin : Nat) :
    (shard.rotate nowMin (slot nowMin)).minute = nowMin := by
  rw [Shard.rotate]
  split
  · next used => exact used
  · rw [Function.update_self]

theorem holds_insert_rotate (shard : Shard) (authSeal : Seal) (nowMin : Nat) :
    ((shard.rotate nowMin).insert authSeal nowMin).Holds authSeal nowMin := by
  rw [Shard.insert]
  refine ⟨?_, ?_⟩
  · rw [Function.update_self, rotate_minute]
  · rw [Function.update_self]
    exact Finset.mem_insert_self _ _

end Shard

namespace ReplayGuard

variable {guard : ReplayGuard} {authSeal other : Seal} {minute tsMin nowMin : Nat}

def Holds (guard : ReplayGuard) (authSeal : Seal) (minute : Nat) : Prop :=
  (guard.shards (shardOf authSeal)).Holds authSeal minute

theorem shards_store_self (shard : Shard) :
    (guard.store authSeal shard).shards (shardOf authSeal) = shard := Function.update_self ..

theorem shards_store_of_ne {index : Fin 16} (other : index ≠ shardOf authSeal) (shard : Shard) :
    (guard.store authSeal shard).shards index = guard.shards index := Function.update_of_ne other ..

theorem Holds.store {shard : Shard} (holds : guard.Holds authSeal minute)
    (kept : (guard.shards (shardOf other)).Holds authSeal minute → shard.Holds authSeal minute) :
    (guard.store other shard).Holds authSeal minute := by
  rw [Holds]
  by_cases same : shardOf authSeal = shardOf other
  · rw [same, shards_store_self]
    exact kept (same ▸ holds)
  · rw [shards_store_of_ne same]
    exact holds

theorem Holds.check (holds : guard.Holds authSeal minute) (past : minute ≤ nowMin)
    (near : nowMin ≤ minute + replayWindow) :
    (guard.check other tsMin nowMin).2.Holds authSeal minute := by
  have rotated : ∀ {shard : Shard}, shard.Holds authSeal minute →
      (shard.rotate nowMin).Holds authSeal minute := fun held => held.rotate past near
  unfold ReplayGuard.check
  split
  · exact holds
  · dsimp only
    split
    · exact holds.store rotated
    · split
      · exact holds.store rotated
      · exact holds.store fun held => (rotated held).insert

theorem Holds.check_eq_replay (holds : guard.Holds authSeal minute) (real : minute < unusedMinute)
    (past : minute ≤ nowMin) (near : nowMin ≤ minute + replayWindow) :
    (guard.check authSeal tsMin nowMin).1 = .replay := by
  have found := (Shard.Holds.rotate holds past near).contains real near
  unfold ReplayGuard.check
  split
  · rfl
  · rw [if_pos found]

theorem holds_of_fresh (fresh : (guard.check authSeal tsMin nowMin).1 = .fresh) :
    (guard.check authSeal tsMin nowMin).2.Holds authSeal nowMin := by
  unfold ReplayGuard.check at fresh ⊢
  split at fresh
  · cases fresh
  · next minted =>
    dsimp only at fresh ⊢
    split at fresh
    · cases fresh
    · next unseen =>
      split at fresh
      · cases fresh
      · next room =>
        rw [if_neg minted, if_neg unseen, if_neg room, Holds, shards_store_self]
        exact Shard.holds_insert_rotate _ authSeal nowMin

theorem check_of_early (early : tsMin < guard.startMin) :
    (guard.check authSeal tsMin nowMin).1 = .replay := by
  rw [ReplayGuard.check, if_pos early]

theorem check_startMin (guard : ReplayGuard) (authSeal : Seal) (tsMin nowMin : Nat) :
    (guard.check authSeal tsMin nowMin).2.startMin = guard.startMin := by
  unfold ReplayGuard.check
  split
  · rfl
  · dsimp only
    split
    · rfl
    · split <;> rfl

end ReplayGuard

/-! ### Sequences of checks -/

open ReplayGuard

theorem map_fst_judge (guard : ReplayGuard) (arrivals : List Arrival) :
    (judge guard arrivals).map Prod.fst = arrivals := by
  induction arrivals generalizing guard with
  | nil => rfl
  | cons arrival rest ih => rw [judge, List.map_cons, ih]

variable {arrivals : List Arrival}

variable {guard : ReplayGuard}

theorem mem_of_mem_judge {entry : Arrival × Verdict}
    (member : entry ∈ judge guard arrivals) : entry.1 ∈ arrivals := by
  rw [← map_fst_judge guard arrivals]
  exact List.mem_map_of_mem member

theorem judge_held {authSeal : Seal} {minute : Nat}
    (holds : guard.Holds authSeal minute) (real : minute < unusedMinute)
    (later : ∀ arrival ∈ arrivals, minute ≤ arrival.nowMin)
    (ordered : arrivals.Pairwise fun first second => first.nowMin ≤ second.nowMin) :
    ∀ entry ∈ judge guard arrivals, entry.1.authSeal = authSeal →
      entry.1.nowMin ≤ minute + replayWindow → entry.2 = .replay := by
  induction arrivals generalizing guard with
  | nil => exact fun entry member => absurd member List.not_mem_nil
  | cons arrival rest ih =>
    obtain ⟨first, ordered⟩ := List.pairwise_cons.mp ordered
    have past := later arrival List.mem_cons_self
    intro entry member same near
    rcases List.mem_cons.mp member with rfl | member
    · subst same
      exact holds.check_eq_replay real past near
    · -- the arrivals in between are within the window too, so the authSeal is still held
      have between : arrival.nowMin ≤ minute + replayWindow :=
        (first entry.1 (mem_of_mem_judge member)).trans near
      exact ih (holds.check past between)
        (fun arrival member => later arrival (List.mem_cons_of_mem _ member)) ordered entry member
        same near

theorem judge_early :
    ∀ entry ∈ judge guard arrivals, entry.1.tsMin < guard.startMin → entry.2 = .replay := by
  induction arrivals generalizing guard with
  | nil => exact fun entry member => absurd member List.not_mem_nil
  | cons arrival rest ih =>
    refine List.forall_mem_cons.mpr ⟨check_of_early, fun entry member early => ?_⟩
    exact ih entry member (by rwa [check_startMin])

theorem judge_pairwise (guard : ReplayGuard)
    (real : ∀ arrival ∈ arrivals, arrival.nowMin < unusedMinute)
    (ordered : arrivals.Pairwise fun first second => first.nowMin ≤ second.nowMin) :
    (judge guard arrivals).Pairwise fun first second => first.2 = .fresh →
      second.1.authSeal = first.1.authSeal → second.1.nowMin ≤ first.1.nowMin + replayWindow →
        second.2 = .replay := by
  induction arrivals generalizing guard with
  | nil => exact List.Pairwise.nil
  | cons arrival rest ih =>
    obtain ⟨later, ordered⟩ := List.pairwise_cons.mp ordered
    refine List.pairwise_cons.mpr ⟨?_, ih _
      (fun other member => real other (List.mem_cons_of_mem _ member)) ordered⟩
    intro entry member fresh
    exact judge_held (holds_of_fresh fresh) (real arrival List.mem_cons_self) later ordered entry
      member

/-- In every sequence of checks with nondecreasing minutes below the unused one, a seal judged
fresh is a replay for the twenty minutes that follow, a seal minted before the start is never
fresh, and of all arrivals within ten minutes of a timestamp at most one is fresh. -/
theorem fresh_once_within_skew (startMin maxBucket : Nat) (arrivals : List Arrival)
    (ordered : arrivals.Pairwise fun first second => first.nowMin ≤ second.nowMin)
    (real : ∀ arrival ∈ arrivals, arrival.nowMin < unusedMinute) :
    let judged := judge (ReplayGuard.new startMin maxBucket) arrivals
    (judged.Pairwise fun first second => first.2 = .fresh → second.1.authSeal = first.1.authSeal →
        second.1.nowMin ≤ first.1.nowMin + 20 → second.2 = .replay) ∧
      (∀ entry ∈ judged, entry.1.tsMin < startMin → entry.2 = .replay) ∧
      ∀ authSeal minted, (judged.filter fun entry => entry.2 = .fresh ∧
        entry.1.authSeal = authSeal ∧ minted ≤ entry.1.nowMin + 10 ∧
          entry.1.nowMin ≤ minted + 10).length ≤ 1 := by
  have pairs := judge_pairwise (ReplayGuard.new startMin maxBucket) real ordered
  refine ⟨pairs, judge_early, fun authSeal minted => ArrayList.length_filter_le_one pairs ?_⟩
  -- two fresh arrivals of the seal would be within twenty minutes of each other
  intro first second ofFirst ofSecond replayed
  obtain ⟨fresh, firstSeal, early, -⟩ := of_decide_eq_true ofFirst
  obtain ⟨again, secondSeal, -, late⟩ := of_decide_eq_true ofSecond
  have judgedReplay := replayed fresh (secondSeal.trans firstSeal.symm) (by
    rw [replayWindow]
    omega)
  rw [judgedReplay] at again
  cases again

def sealOf (byte : Nat) : Seal := List.Vector.replicate 32 (Byte.ofNat byte)

/-- A seal at both ends of the skew band of its timestamp, with another one of its shard in
between. -/
theorem seal_at_both_ends_of_skew :
    let judged := judge (ReplayGuard.new 0 4)
      [⟨sealOf 1, 15, 5⟩, ⟨sealOf 17, 15, 9⟩, ⟨sealOf 1, 15, 25⟩]
    judged.map Prod.snd = [.fresh, .fresh, .replay] ∧
      (judged.filter fun entry => entry.2 = .fresh ∧ entry.1.authSeal = sealOf 1 ∧
        15 ≤ entry.1.nowMin + 10 ∧ entry.1.nowMin ≤ 15 + 10).length ≤ 1 :=
  ⟨by decide +kernel,
    (fresh_once_within_skew 0 4 _ (by decide +kernel) (by decide +kernel)).2.2 (sealOf 1) 15⟩

/-- In the minute that marks unused buckets, a seal is fresh twice. -/
theorem fresh_twice_in_unused_minute :
    (judge (ReplayGuard.new 0 4) [⟨sealOf 1, 2 ^ 64 - 1, 2 ^ 64 - 1⟩,
        ⟨sealOf 1, 2 ^ 64 - 1, 2 ^ 64 - 1⟩]).map Prod.snd = [.fresh, .fresh] := by
  decide +kernel

end Yip.Reality
