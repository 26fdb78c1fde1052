/-
This file models how datagrams are grouped for one segmented send (`gso.rs`).
-/

import Mathlib.Data.List.ProdSigma
import Yip.Primitives

namespace Yip.Io

open List

def maxUdpPayload : Nat := 65507

def maxGsoSegmentsPerSend : Nat := 32

def clamp (value low high : Nat) : Option Nat :=
  if low ≤ high then some (max low (min value high)) else none

def maxGsoRunLen (segmentSize hardCap : Nat) : Option Nat :=
  if segmentSize = 0 then some 1
  else clamp (maxUdpPayload / segmentSize) 1 (min maxGsoSegmentsPerSend hardCap)

abbrev Indexed := EgressDatagram × Nat

structure GsoRun where
  segmentSize : Nat
  members : List Indexed

/-- The datagram may join the run: same length and address, another fate. -/
def Admits (head : EgressDatagram) (cap : Nat) (members : List Indexed) (d : EgressDatagram) :
    Prop :=
  d.dst = head.dst ∧ d.bytes.length = head.bytes.length ∧
    (∀ member ∈ members, member.1.fate ≠ d.fate) ∧ members.length < cap

instance (head : EgressDatagram) (cap : Nat) (members : List Indexed) (d : EgressDatagram) :
    Decidable (Admits head cap members d) :=
  inferInstanceAs (Decidable (_ ∧ _))

def admitAll (head : EgressDatagram) (cap : Nat) (members : List Indexed) :
    List Indexed → List Indexed × List Indexed
  | [] => (members, [])
  | item :: rest =>
    if Admits head cap members item.1 then admitAll head cap (members ++ [item]) rest
    else
      let (members, deferred) := admitAll head cap members rest
      (members, item :: deferred)

theorem length_deferred (head : EgressDatagram) (cap : Nat) (members rest : List Indexed) :
    (admitAll head cap members rest).2.length ≤ rest.length := by
  induction rest generalizing members with
  | nil => exact Nat.le_refl 0
  | cons item rest ih =>
    rw [admitAll]
    split
    · exact (ih _).trans (Nat.le_succ _)
    · exact Nat.succ_le_succ (ih members)

def partitionFrom (hardCap : Nat) : List Indexed → Option (List GsoRun)
  | [] => some []
  | head :: rest => do
    let len := head.1.bytes.length
    if 0 < len ∧ len < 2 ^ 16 then
      let cap ← maxGsoRunLen len hardCap
      let runs ← partitionFrom hardCap (admitAll head.1 cap [head] rest).2
      return ⟨len, (admitAll head.1 cap [head] rest).1⟩ :: runs
    else
      let runs ← partitionFrom hardCap rest
      return ⟨0, [head]⟩ :: runs
termination_by remaining => remaining.length
decreasing_by
  · exact Nat.lt_succ_of_le (length_deferred ..)
  · exact Nat.lt_succ_self _

def partitionFateSafe (dgs : List EgressDatagram) (hardCap : Nat) : Option (List GsoRun) :=
  partitionFrom hardCap dgs.zipIdx

/-! ### One run -/

def fateClass (item : Indexed) : SocketAddr × Nat × Nat :=
  (item.1.dst, item.1.bytes.length, item.1.fate)

section Pass

variable {head : EgressDatagram} {cap : Nat} {members : List Indexed} {item : Indexed}

theorem admitAll_of_refused (refused : ¬ Admits head cap members item.1) (rest : List Indexed) :
    (admitAll head cap members rest).1.filter (fateClass · = fateClass item) =
      members.filter (fateClass · = fateClass item) := by
  induction rest generalizing members with
  | nil => rfl
  | cons later rest ih =>
    rw [admitAll]
    split
    · rename_i admitted
      have other : fateClass later ≠ fateClass item := by
        intro same
        simp only [fateClass, Prod.mk.injEq] at same
        rw [Admits, same.1, same.2.1, same.2.2] at admitted
        exact refused admitted
      rw [ih, filter_append]
      · simp [other]
      · rintro ⟨dst, len, fates, below⟩
        rw [length_append] at below
        exact refused ⟨dst, len, fun member known => fates member (mem_append_left _ known),
          Nat.lt_of_succ_lt below⟩
    · exact ih refused

theorem admitAll_filter (rest : List Indexed) (kind : SocketAddr × Nat × Nat) :
    ((admitAll head cap members rest).1 ++ (admitAll head cap members rest).2).filter
      (fateClass · = kind) = (members ++ rest).filter (fateClass · = kind) := by
  induction rest generalizing members with
  | nil => rfl
  | cons item rest ih =>
    rw [admitAll]
    split
    · rw [ih, append_assoc]
      rfl
    · rename_i refused
      have same := @ih members
      simp only [filter_append, filter_cons] at same ⊢
      by_cases own : fateClass item = kind
      · subst own
        rw [admitAll_of_refused refused] at same ⊢
        rw [append_cancel_left same]
      · simpa [own] using same

structure Safe (head : EgressDatagram) (cap : Nat) (members : List Indexed) : Prop where
  same : ∀ member ∈ members,
    member.1.dst = head.dst ∧ member.1.bytes.length = head.bytes.length
  fates : members.Pairwise fun first second => first.1.fate ≠ second.1.fate
  bounded : members.length ≤ cap

theorem Safe.admitAll (safe : Safe head cap members) (rest : List Indexed) :
    Safe head cap (admitAll head cap members rest).1 := by
  induction rest generalizing members with
  | nil => exact safe
  | cons item rest ih =>
    rw [Io.admitAll]
    split
    · rename_i admitted
      obtain ⟨dst, len, fates, below⟩ := admitted
      refine ih ⟨forall_mem_append.mpr ⟨safe.same, forall_mem_singleton.mpr ⟨dst, len⟩⟩, ?_, ?_⟩
      · exact pairwise_append.mpr ⟨safe.fates, pairwise_singleton _ _,
          fun member known other new => mem_singleton.mp new ▸ fates member known⟩
      · rw [length_append]
        exact below
    · exact ih safe

end Pass

/-! ### The partition -/

structure GsoRun.Sound (hardCap : Nat) (run : GsoRun) : Prop where
  alike : ∀ first ∈ run.members, ∀ second ∈ run.members,
    first.1.dst = second.1.dst ∧ first.1.bytes.length = second.1.bytes.length
  fates : run.members.Pairwise fun first second => first.1.fate ≠ second.1.fate
  capped : run.members.length ≤ hardCap
  fits : 1 < run.members.length →
    (run.members.map fun member => member.1.bytes.length).sum ≤ maxUdpPayload

theorem Safe.sound {head : EgressDatagram} {cap hardCap segmentSize : Nat} {members : List Indexed}
    (safe : Safe head cap members) (capped : cap ≤ hardCap)
    (fits : 1 < cap → cap * head.bytes.length ≤ maxUdpPayload) :
    GsoRun.Sound hardCap ⟨segmentSize, members⟩ := by
  refine ⟨fun first isFirst second isSecond => ?_, safe.fates, safe.bounded.trans capped, ?_⟩
  · exact ⟨(safe.same first isFirst).1.trans (safe.same second isSecond).1.symm,
      (safe.same first isFirst).2.trans (safe.same second isSecond).2.symm⟩
  · intro several
    have total : (members.map fun member => member.1.bytes.length).sum =
        members.length * head.bytes.length := by
      rw [map_congr_left fun member known => (safe.same member known).2, map_const',
        sum_replicate_nat]
    exact total.le.trans ((Nat.mul_le_mul_right _ safe.bounded).trans
      (fits (several.trans_le safe.bounded)))

theorem maxGsoRunLen_spec {len hardCap : Nat} (nonempty : 0 < len) (positive : 0 < hardCap) :
    ∃ cap, maxGsoRunLen len hardCap = some cap ∧ 1 ≤ cap ∧ cap ≤ hardCap ∧
      (1 < cap → cap * len ≤ maxUdpPayload) := by
  rw [maxGsoRunLen, if_neg nonempty.ne', clamp,
    if_pos (le_min (show 1 ≤ maxGsoSegmentsPerSend by decide) positive)]
  refine ⟨_, rfl, Nat.le_max_left .., ?_, fun several => ?_⟩
  · exact Nat.max_le.mpr ⟨positive, (Nat.min_le_right ..).trans (Nat.min_le_right ..)⟩
  · have below : max 1 (min (maxUdpPayload / len) (min maxGsoSegmentsPerSend hardCap)) ≤
        maxUdpPayload / len := by omega
    exact (Nat.mul_le_mul_right len below).trans (Nat.div_mul_le_self _ _)

theorem partitionFrom_spec {hardCap : Nat} (positive : 0 < hardCap) (remaining : List Indexed) :
    ∃ runs, partitionFrom hardCap remaining = some runs ∧ (∀ run ∈ runs, run.Sound hardCap) ∧
      ∀ kind, (runs.flatMap GsoRun.members).filter (fateClass · = kind) =
        remaining.filter (fateClass · = kind) := by
  fun_induction partitionFrom hardCap remaining with
  | case1 => exact ⟨[], rfl, by simp, fun _ => rfl⟩
  | case2 head rest len segment ih =>
    obtain ⟨cap, isCap, least, capped, fits⟩ := maxGsoRunLen_spec segment.1 positive
    obtain ⟨runs, cut, sound, order⟩ := ih cap
    have single : Safe head.1 cap [head] :=
      ⟨by simp, pairwise_singleton _ _, least⟩
    simp only [isCap, Option.bind_eq_bind, Option.bind_some, cut]
    refine ⟨_, rfl, forall_mem_cons.mpr ⟨(single.admitAll rest).sound capped fits, sound⟩,
      fun kind => ?_⟩
    rw [flatMap_cons, filter_append, order, ← filter_append]
    exact admitAll_filter rest kind
  | case3 head rest len segment ih =>
    obtain ⟨runs, cut, sound, order⟩ := ih
    have single : Safe head.1 1 [head] := ⟨by simp, pairwise_singleton _ _, le_rfl⟩
    simp only [cut, Option.bind_eq_bind, Option.bind_some]
    refine ⟨_, rfl, forall_mem_cons.mpr
      ⟨single.sound positive fun several => absurd several (Nat.lt_irrefl 1), sound⟩,
      fun kind => ?_⟩
    rw [flatMap_cons, filter_append, order, ← filter_append]
    rfl

/-- Under a positive cap the cut returns sound runs that hold every datagram, with its index, once.
Those of one destination, length and fate are sent in their order. -/
theorem partition_safe_and_complete (dgs : List EgressDatagram) (hardCap : Nat)
    (positive : 0 < hardCap) :
    ∃ runs, partitionFateSafe dgs hardCap = some runs ∧ (∀ run ∈ runs, run.Sound hardCap) ∧
      (runs.flatMap GsoRun.members).Perm dgs.zipIdx ∧
      ∀ kind, (runs.flatMap GsoRun.members).filter (fateClass · = kind) =
        dgs.zipIdx.filter (fateClass · = kind) := by
  obtain ⟨runs, cut, sound, order⟩ := partitionFrom_spec positive dgs.zipIdx
  refine ⟨runs, cut, sound, perm_iff_count.mpr fun item => ?_, order⟩
  have same := congrArg (count item) (order (fateClass item))
  simpa only [count_filter, decide_true] using same

theorem equal_fates_cut_in_order :
    ∃ runs, partitionFateSafe [⟨7, ⟨1, 1⟩, [0]⟩, ⟨7, ⟨1, 1⟩, [1]⟩] 8 = some runs ∧
      runs.flatMap GsoRun.members = [(⟨7, ⟨1, 1⟩, [0]⟩, 0), (⟨7, ⟨1, 1⟩, [1]⟩, 1)] := by
  obtain ⟨runs, cut, -, all, order⟩ :=
    partition_safe_and_complete [⟨7, ⟨1, 1⟩, [0]⟩, ⟨7, ⟨1, 1⟩, [1]⟩] 8 (by decide)
  refine ⟨runs, cut, (filter_eq_self.mpr fun item member => ?_).symm.trans
    (order (⟨1, 1⟩, 1, 7))⟩
  have known := all.mem_iff.mp member
  simp only [zipIdx_cons, zipIdx_nil, mem_cons, not_mem_nil, or_false] at known
  rcases known with rfl | rfl <;> rfl

end Yip.Io
