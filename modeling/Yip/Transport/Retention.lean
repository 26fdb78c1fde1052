/-
This file says what the retransmit buffer is for.
-/

import Yip.Lib.Machine
import Yip.Transport.Recovery

namespace Yip.Transport.RetxBuffer

open List

structure Put where
  counter : Nat
  ciphertext : List Byte
  flow : FlowClass
  objectId : Nat
  nowMs : Nat

namespace Put

def object (put : Put) : List Byte × FlowClass × Nat := (put.ciphertext, put.flow, put.objectId)

def entry (put : Put) : Sigma fun _ : Nat => RetxEntry :=
  ⟨put.counter, put.ciphertext, put.flow, put.objectId, put.nowMs⟩

end Put

def step (buffer : RetxBuffer) (put : Put) : RetxBuffer :=
  buffer.put put.counter put.ciphertext put.flow put.objectId put.nowMs

/-- The buffer holds the last objects put into it: all that are neither too many nor too old. -/
structure Holds (buffer : RetxBuffer) (dropped kept : List Put) (nowMs : Nat) : Prop where
  order : buffer.order = kept.map Put.counter
  entries : buffer.map.entries.Perm (kept.map Put.entry)
  bounded : kept.length ≤ buffer.max
  gone : kept.length = buffer.max ∨ ∀ put ∈ dropped, buffer.ttlMs < nowMs - put.nowMs

variable {buffer : RetxBuffer} {dropped kept puts : List Put} {put : Put} {before : Nat}

theorem perm_erase (entries : buffer.map.entries.Perm ((put :: kept).map Put.entry)) :
    (buffer.map.erase put.counter).entries.Perm (kept.map Put.entry) := by
  refine (entries.kerase buffer.map.nodupKeys).trans ?_
  rw [map_cons, kerase_cons_eq (show put.counter = put.entry.1 from rfl)]

theorem evictExpiredFrom_drops (nowMs : Nat)
    (entries : buffer.map.entries.Perm (kept.map Put.entry)) :
    ∃ expired rest, kept = expired ++ rest ∧
      (∀ put ∈ expired, buffer.ttlMs < nowMs - put.nowMs) ∧
      ∃ map, evictExpiredFrom nowMs buffer (kept.map Put.counter) =
          { buffer with map := map, order := rest.map Put.counter } ∧
        map.entries.Perm (rest.map Put.entry) := by
  induction kept generalizing buffer with
  | nil => exact ⟨[], [], rfl, by simp, buffer.map, rfl, entries⟩
  | cons put kept ih =>
    have found : buffer.map.lookup put.counter = some put.entry.2 :=
      AList.mem_lookup_iff.mpr (entries.mem_iff.mpr mem_cons_self)
    rw [map_cons, evictExpiredFrom, found]
    by_cases old : nowMs - put.nowMs > buffer.ttlMs
    · obtain ⟨expired, rest, rfl, tooOld, map, evicted, left⟩ :=
        @ih { buffer with map := buffer.map.erase put.counter }
          (perm_erase entries)
      refine ⟨put :: expired, rest, rfl, forall_mem_cons.mpr ⟨old, tooOld⟩, map, ?_, left⟩
      exact (if_pos old).trans evicted
    · exact ⟨[], put :: kept, rfl, by simp, buffer.map, if_neg old, entries⟩

theorem Holds.evictExpired (holds : Holds buffer dropped kept before) {nowMs : Nat}
    (later : before ≤ nowMs)
    (ordered : (dropped ++ kept).Pairwise fun earlier put => earlier.nowMs ≤ put.nowMs) :
    ∃ expired rest, kept = expired ++ rest ∧
      Holds (buffer.evictExpired nowMs) (dropped ++ expired) rest nowMs ∧
      (buffer.evictExpired nowMs).max = buffer.max ∧
      (buffer.evictExpired nowMs).ttlMs = buffer.ttlMs := by
  obtain ⟨expired, rest, rfl, tooOld, map, evicted, left⟩ :=
    evictExpiredFrom_drops nowMs holds.entries
  rw [RetxBuffer.evictExpired, holds.order, evicted]
  have bounded := holds.bounded
  rw [length_append] at bounded
  refine ⟨expired, rest, rfl, ⟨rfl, left, show rest.length ≤ buffer.max by omega, ?_⟩, rfl, rfl⟩
  show rest.length = buffer.max ∨ ∀ put ∈ dropped ++ expired, buffer.ttlMs < nowMs - put.nowMs
  cases expired with
  | nil =>
    rw [append_nil]
    refine holds.gone.imp_right fun gone put member => ?_
    have old := gone put member
    omega
  | cons first others =>
    refine Or.inr fun put member => ?_
    rcases mem_append.mp member with dropped | expired
    · have older := (pairwise_append.mp ordered).2.2 put dropped first (by simp)
      have old := tooOld first mem_cons_self
      omega
    · exact tooOld put expired

theorem Holds.makeRoom (holds : Holds buffer dropped kept before) (positive : 0 < buffer.max) :
    let room := if buffer.map.entries.length ≥ buffer.max then buffer.evictOldest else buffer
    ∃ gone rest, dropped ++ kept = gone ++ rest ∧ rest.length < buffer.max ∧
      room.order = rest.map Put.counter ∧ room.map.entries.Perm (rest.map Put.entry) ∧
      (rest.length + 1 = buffer.max ∨ ∀ put ∈ gone, buffer.ttlMs < before - put.nowMs) ∧
      room.max = buffer.max ∧ room.ttlMs = buffer.ttlMs := by
  have size : buffer.map.entries.length = kept.length := by simpa using holds.entries.length_eq
  have bounded := holds.bounded
  rw [size]
  by_cases full : kept.length ≥ buffer.max
  · rw [if_pos full, evictOldest, holds.order]
    cases kept with
    | nil => exact absurd full (Nat.not_le.mpr positive)
    | cons oldest rest =>
      refine ⟨dropped ++ [oldest], rest, by simp, bounded, rfl, perm_erase holds.entries,
        Or.inl (Nat.le_antisymm bounded full), rfl, rfl⟩
  · rw [if_neg full]
    exact ⟨dropped, kept, rfl, Nat.not_le.mp full, holds.order, holds.entries,
      Or.inr (holds.gone.resolve_left fun same => full same.ge), rfl, rfl⟩

theorem Holds.step (holds : Holds buffer dropped kept before) (later : before ≤ put.nowMs)
    (ordered : (dropped ++ kept).Pairwise fun earlier put => earlier.nowMs ≤ put.nowMs)
    (fresh : ∀ other ∈ dropped ++ kept, other.counter ≠ put.counter) (positive : 0 < buffer.max) :
    ∃ gone rest, gone ++ rest = dropped ++ kept ++ [put] ∧
      Holds (buffer.step put) gone rest put.nowMs ∧
      (buffer.step put).max = buffer.max ∧ (buffer.step put).ttlMs = buffer.ttlMs := by
  have unknown {map : AList fun _ : Nat => RetxEntry} {puts : List Put}
      (entries : map.entries.Perm (puts.map Put.entry)) (known : puts ⊆ dropped ++ kept) :
      put.counter ∉ map := by
    intro member
    obtain ⟨entry, found⟩ := Option.isSome_iff_exists.mp (AList.lookup_isSome.mpr member)
    obtain ⟨other, listed, same⟩ :=
      mem_map.mp (entries.mem_iff.mp (AList.mem_lookup_iff.mp found))
    exact fresh other (known listed) (congrArg Sigma.fst same)
  obtain ⟨expired, rest, rfl, evicted, maxSame, ttlSame⟩ := holds.evictExpired later ordered
  obtain ⟨gone, left, split, below, order, entries, tooOld, roomMax, roomTtl⟩ :=
    evicted.makeRoom (maxSame ▸ positive)
  rw [append_assoc] at split
  have absent := unknown entries (split ▸ subset_append_right gone left)
  rw [RetxBuffer.step, RetxBuffer.put,
    AList.lookup_eq_none.mpr (unknown holds.entries (subset_append_right _ _))]
  refine ⟨gone, left ++ [put], by rw [split, append_assoc],
    ⟨?_, ?_, ?_, ?_⟩, roomMax.trans maxSame, roomTtl.trans ttlSame⟩
  · rw [map_append, ← order]
    rfl
  · rw [AList.entries_insert_of_notMem absent, map_append]
    exact (entries.cons _).trans (perm_append_singleton _ _).symm
  · rw [length_append, roomMax]
    exact below
  · rw [length_append, roomMax, roomTtl]
    exact tooOld

theorem Holds.keys (holds : Holds buffer dropped kept before) :
    buffer.map.keys.Perm buffer.order := by
  have listed := holds.entries.map Sigma.fst
  rw [map_map] at listed
  rw [holds.order]
  exact listed

theorem Holds.get_iff (holds : Holds buffer dropped kept before) {counter nowMs : Nat}
    (later : before ≤ nowMs) {object : List Byte × FlowClass × Nat} :
    buffer.get counter nowMs = some object ↔
      ∃ put ∈ (dropped ++ kept).drop ((dropped ++ kept).length - buffer.max),
        put.counter = counter ∧ nowMs - put.nowMs ≤ buffer.ttlMs ∧ put.object = object := by
  have bounded := holds.bounded
  have stored : buffer.get counter nowMs = some object ↔ ∃ put ∈ kept,
      put.counter = counter ∧ nowMs - put.nowMs ≤ buffer.ttlMs ∧ put.object = object := by
    rw [get, Option.bind_eq_some_iff]
    constructor
    · rintro ⟨entry, found, answer⟩
      obtain ⟨put, member, same⟩ :=
        mem_map.mp (holds.entries.mem_iff.mp (AList.mem_lookup_iff.mp found))
      cases same
      by_cases old : nowMs - put.nowMs > buffer.ttlMs
      · rw [if_pos old] at answer
        cases answer
      · rw [if_neg old] at answer
        exact ⟨put, member, rfl, Nat.not_lt.mp old, Option.some.inj answer⟩
    · rintro ⟨put, member, rfl, young, rfl⟩
      exact ⟨put.entry.2, AList.mem_lookup_iff.mpr (holds.entries.mem_iff.mpr
        (mem_map_of_mem member)), if_neg (Nat.not_lt.mpr young)⟩
  rw [stored, length_append]
  constructor
  · rintro ⟨put, member, rest⟩
    refine ⟨put, ?_, rest⟩
    rw [drop_append_of_le_length (by omega)]
    exact mem_append_right _ member
  · rintro ⟨put, member, own, young, rest⟩
    refine ⟨put, ?_, own, young, rest⟩
    rcases holds.gone with full | gone
    · rwa [full, Nat.add_sub_cancel, drop_left] at member
    · refine (mem_append.mp (mem_of_mem_drop member)).resolve_left fun dropped => ?_
      have old := gone put dropped
      omega

theorem holds_run (max ttlMs : Nat) (distinct : (puts.map Put.counter).Nodup)
    (ordered : puts.Pairwise fun earlier put => earlier.nowMs ≤ put.nowMs) :
    let buffer := Machine.run step (new max ttlMs) puts
    ∃ dropped kept nowMs, dropped ++ kept = puts ∧ Holds buffer dropped kept nowMs ∧
      (∀ later, (∀ put ∈ puts, put.nowMs ≤ later) → nowMs ≤ later) ∧
      buffer.max = Nat.max max 1 ∧ buffer.ttlMs = ttlMs := by
  induction puts using reverseRecOn with
  | nil =>
    exact ⟨[], [], 0, rfl, ⟨rfl, .refl _, Nat.zero_le _, Or.inr (by simp)⟩, fun _ _ =>
      Nat.zero_le _, rfl, rfl⟩
  | append_singleton puts put ih =>
    rw [map_append, nodup_append] at distinct
    obtain ⟨early, -, last⟩ := pairwise_append.mp ordered
    obtain ⟨dropped, kept, before, rfl, holds, latest, maxSame, ttlSame⟩ :=
      ih distinct.1 early
    obtain ⟨gone, rest, split, holds, maxKept, ttlKept⟩ := holds.step
      (latest _ fun other member => last other member put mem_cons_self) early
      (fun other member => distinct.2.2 _ (mem_map_of_mem member) _ mem_cons_self)
      (maxSame ▸ Nat.le_max_right max 1)
    rw [Machine.run_append]
    exact ⟨gone, rest, put.nowMs, split, holds, fun later all => all put (by simp),
      maxKept.trans maxSame, ttlKept.trans ttlSame⟩

/-- A later `get` returns the object put for a counter exactly if this put is one of the last
`max`, of which there is at least one, and is not older than the limit. The queue lists every key of
the map once. -/
theorem get_answers_last_puts (max ttlMs : Nat) (puts : List Put)
    (distinct : (puts.map Put.counter).Nodup)
    (ordered : puts.Pairwise fun earlier put => earlier.nowMs ≤ put.nowMs) (counter nowMs : Nat)
    (later : ∀ put ∈ puts, put.nowMs ≤ nowMs) :
    let buffer := Machine.run step (new max ttlMs) puts
    (∀ object, buffer.get counter nowMs = some object ↔
        ∃ put ∈ puts.drop (puts.length - Nat.max max 1), put.counter = counter ∧
          nowMs - put.nowMs ≤ ttlMs ∧ put.object = object) ∧
      buffer.order.Nodup ∧ ∀ key, key ∈ buffer.order ↔ key ∈ buffer.map := by
  obtain ⟨dropped, kept, time, rfl, holds, latest, maxSame, ttlSame⟩ :=
    holds_run max ttlMs distinct ordered
  refine ⟨fun object => ?_, holds.keys.nodup_iff.mp (AList.keys_nodup _), fun key => ?_⟩
  · rw [holds.get_iff (latest nowMs later), maxSame, ttlSame]
  · rw [← holds.keys.mem_iff]
    rfl

theorem second_of_three_answered :
    (Machine.run step (new 2 10) [⟨1, [], .bulk, 7, 0⟩, ⟨2, [], .bulk, 8, 5⟩,
      ⟨3, [], .bulk, 9, 6⟩]).get 2 15 = some ([], .bulk, 8) :=
  ((get_answers_last_puts 2 10 _ (by decide) (by decide) 2 15 (by decide)).1 _).mpr
    ⟨⟨2, [], .bulk, 8, 5⟩, mem_cons_self, rfl, by decide, rfl⟩

end Yip.Transport.RetxBuffer
