/-
This file models the `ObjectTable` of `fec.rs`, an open-addressed table with linear probing that
holds the objects of a reassembler, and proves that it answers as a finite map does.
-/

import Mathlib.Algebra.Group.Nat.Defs
import Yip.Lib.Assoc
import Yip.Lib.LinearProbing
import Yip.Lib.Machine

namespace Yip.Transport

open Assoc LinearProbing List Option

/-! ### The table -/

def hashKey (key mask : Nat) : Nat :=
  let x := BitVec.ofNat 64 key
  let x := (x ^^^ (x >>> 30)) * 0xbf58476d1ce4e5b9#64
  let x := (x ^^^ (x >>> 27)) * 0x94d049bb133111eb#64
  let x := x ^^^ (x >>> 31)
  x.toNat &&& mask

def nextPowerOfTwo (n : Nat) : Nat :=
  (if n ≤ 1 then 1 else 2 ^ ((n - 1).log2 + 1)) % 2 ^ 64

/-- An open-addressing table with linear probing. -/
structure ObjectTable (Object : Type) where
  slots : List (Option (Nat × Object))
  len : Nat

inductive Probe where
  | found (idx : Nat)
  | vacant (idx : Nat)

namespace ObjectTable

variable {Object : Type}

def new (capacity : Nat) : ObjectTable Object where
  slots := List.replicate (max (nextPowerOfTwo (max capacity 1 * 2 % 2 ^ 64)) 16) none
  len := 0

/-- Walks from a slot to the key or to a free slot; `none` if there is neither. -/
def probe (slots : List (Option (Nat × Object))) (mask key : Nat) : Nat → Nat → Option Probe
  | 0, _ => none
  | rounds + 1, idx =>
    match slots[idx]? with
    | none => none
    | some none => some (.vacant idx)
    | some (some (k, _)) =>
      if k = key then some (.found idx) else probe slots mask key rounds ((idx + 1) &&& mask)

def probeFor (table : ObjectTable Object) (key : Nat) : Option Probe :=
  let mask := table.slots.length - 1
  probe table.slots mask key table.slots.length (hashKey key mask)

def findIndex (table : ObjectTable Object) (key : Nat) : Option (Option Nat) :=
  (table.probeFor key).map fun
    | .found idx => some idx
    | .vacant _ => none

def get (table : ObjectTable Object) (key : Nat) : Option (Option Object) :=
  (table.findIndex key).bind fun
    | none => some none
    | some idx => table.slots[idx]?.map fun slot => slot.map Prod.snd

def containsKey (table : ObjectTable Object) (key : Nat) : Option Bool :=
  (table.get key).map Option.isSome

def getMut (table : ObjectTable Object) (key : Nat) :
    Option (Option (Object × (Object → ObjectTable Object))) :=
  (table.findIndex key).bind fun
    | none => some none
    | some idx => table.slots[idx]?.map fun slot => slot.map fun entry =>
      (entry.2, fun object => { table with slots := table.slots.set idx (some (entry.1, object)) })

def insert (table : ObjectTable Object) (key : Nat) (object : Object) :
    Option (ObjectTable Object × Option Object) :=
  (table.probeFor key).bind fun
    | .found idx => table.slots[idx]?.map fun slot =>
      ({ table with slots := table.slots.set idx (some (key, object)) }, slot.map Prod.snd)
    | .vacant idx =>
      some (⟨table.slots.set idx (some (key, object)), table.len + 1⟩, none)

def shouldMove (idx nextIdx naturalIdx : Nat) : Bool :=
  if nextIdx ≥ idx then naturalIdx ≤ idx || naturalIdx > nextIdx
  else naturalIdx ≤ idx && naturalIdx > nextIdx

/-- Closes the gap a removal leaves. -/
def shiftBack (mask : Nat) :
    Nat → List (Option (Nat × Object)) → Nat → Nat → Option (List (Option (Nat × Object)))
  | 0, _, _, _ => none
  | rounds + 1, slots, idx, nextIdx =>
    match slots[nextIdx]? with
    | none => none
    | some none => some slots
    | some (some entry) =>
      if shouldMove idx nextIdx (hashKey entry.1 mask) then
        shiftBack mask rounds ((slots.set nextIdx none).set idx (some entry)) nextIdx
          ((nextIdx + 1) &&& mask)
      else shiftBack mask rounds slots idx ((nextIdx + 1) &&& mask)

def remove (table : ObjectTable Object) (key : Nat) :
    Option (ObjectTable Object × Option Object) :=
  let mask := table.slots.length - 1
  (table.probeFor key).bind fun
    | .vacant _ => some (table, none)
    | .found idx => table.slots[idx]?.bind fun slot =>
      if table.len = 0 then none
      else
        (shiftBack mask table.slots.length (table.slots.set idx none) idx
          ((idx + 1) &&& mask)).map fun slots =>
            (⟨slots, table.len - 1⟩, slot.map Prod.snd)

def keys (table : ObjectTable Object) : List Nat :=
  table.slots.filterMap fun slot => slot.map Prod.fst

/-! ### Positions -/

section Positions

variable {cap bits idx nextIdx natural : Nat}

theorem and_mask (size : cap = 2 ^ bits) (n : Nat) : n &&& (cap - 1) = n % cap := by
  rw [size, Nat.and_two_pow_sub_one_eq_mod]

theorem hashKey_lt (size : cap = 2 ^ bits) (key : Nat) : hashKey key (cap - 1) < cap := by
  have some : 0 < cap := size ▸ Nat.two_pow_pos bits
  show _ &&& (cap - 1) < cap
  rw [and_mask size]
  exact Nat.mod_lt _ some

theorem succ_and_mask (size : cap = 2 ^ bits) (inside : idx < cap) :
    (idx + 1) &&& (cap - 1) = next cap idx := by
  rw [and_mask size, LinearProbing.next]
  split
  · rename_i last
    rw [last, Nat.mod_self]
  · exact Nat.mod_eq_of_lt (by omega)

theorem shouldMove_iff (idxInside : idx < cap) (nextInside : nextIdx < cap)
    (naturalInside : natural < cap) :
    shouldMove idx nextIdx natural = true ↔ OnWay cap natural nextIdx idx := by
  unfold shouldMove OnWay distance
  split_ifs <;> simp only [Bool.or_eq_true, Bool.and_eq_true, decide_eq_true_eq] <;> omega

end Positions

/-! ### Against a finite map -/

/-- The table holds what the map holds, where a probe finds it. -/
structure Implements (table : ObjectTable Object) (map : AList fun _ : Nat => Object) : Prop where
  size : ∃ bits, table.slots.length = 2 ^ bits
  clustered : Clustered (hashKey · (table.slots.length - 1)) table.slots
  contents : Represents table.slots map.lookup
  len : table.len = occupancy table.slots
  entries : occupancy table.slots = map.entries.length

def Probe.Tells (home : Nat → Nat) (slots : List (Option (Nat × Object))) (key : Nat) :
    Probe → Prop
  | .found idx => ∃ object, slots[idx]? = some (some (key, object))
  | .vacant idx => Vacant slots idx ∧ Passed home slots key idx

section Probing

variable {slots : List (Option (Nat × Object))} {bits gap key : Nat}

theorem probe_spec (size : slots.length = 2 ^ bits) (vacant : Vacant slots gap) (rounds idx : Nat)
    (inside : idx < slots.length) (passed : Passed (hashKey · (slots.length - 1)) slots key idx)
    (enough : slots.length ≤ distance slots.length (hashKey key (slots.length - 1)) idx + rounds) :
    ∃ result, probe slots (slots.length - 1) key rounds idx = some result ∧
      Probe.Tells (hashKey · (slots.length - 1)) slots key result := by
  have homeInside := hashKey_lt size key
  induction rounds generalizing idx with
  | zero =>
    have short := distance_lt homeInside inside
    omega
  | succ rounds ih =>
    rw [probe]
    cases content : slots[idx]? with
    | none => exact absurd (getElem?_eq_none_iff.mp content) (by omega)
    | some slot =>
      cases slot with
      | none => exact ⟨.vacant idx, rfl, content, passed⟩
      | some entry =>
        obtain ⟨stored, object⟩ := entry
        by_cases own : stored = key
        · subst own
          exact ⟨.found idx, if_pos rfl, object, content⟩
        · have notClosed := passed.not_closed homeInside content vacant
          simp only [if_neg own]
          rw [succ_and_mask size inside]
          refine ih _ (next_lt inside)
            (passed.next homeInside content own notClosed) ?_
          rw [distance_next homeInside notClosed]
          omega

theorem probeFor_spec {table : ObjectTable Object} {map : AList fun _ : Nat => Object}
    (implements : table.Implements map) (room : map.entries.length < table.slots.length)
    (key : Nat) :
    ∃ result, table.probeFor key = some result ∧
      Probe.Tells (hashKey · (table.slots.length - 1)) table.slots key result := by
  obtain ⟨bits, size⟩ := implements.size
  obtain ⟨gap, vacant⟩ := exists_vacant (implements.entries ▸ room)
  refine probe_spec size vacant _ _ (hashKey_lt size key) ?_ (Nat.le_add_left _ _)
  exact @passed_home _ _ (hashKey · (table.slots.length - 1)) _ _

end Probing

theorem shiftBack_spec {bits gap : Nat} {map : Nat → Option Object} (rounds : Nat)
    (slots : List (Option (Nat × Object))) (idx nextIdx : Nat) (size : slots.length = 2 ^ bits)
    (shifting : Shifting (hashKey · (slots.length - 1)) slots idx nextIdx gap)
    (contents : Represents slots map) (enough : distance slots.length nextIdx gap < rounds) :
    ∃ after, shiftBack (slots.length - 1) rounds slots idx nextIdx = some after ∧
      after.length = slots.length ∧ Clustered (hashKey · (slots.length - 1)) after ∧
      Represents after map ∧ occupancy after = occupancy slots := by
  induction rounds generalizing slots idx nextIdx with
  | zero => exact absurd enough (Nat.not_lt_zero _)
  | succ rounds ih =>
    have inside := shifting.scanInside
    rw [shiftBack]
    cases content : slots[nextIdx]? with
    | none => exact absurd (getElem?_eq_none_iff.mp content) (by omega)
    | some slot =>
      cases slot with
      | none =>
        exact ⟨slots, rfl, rfl, shifting.clustered (hashKey_lt size) content, contents, rfl⟩
      | some entry =>
        have closer := distance_from_next inside (lt_of_getElem?_eq shifting.gapVacant)
          (shifting.scan_ne_gap content)
        have decides := shouldMove_iff (lt_of_getElem?_eq shifting.holeVacant) inside
          (hashKey_lt size entry.1)
        simp only
        rw [succ_and_mask size inside]
        split
        · rename_i moves
          have length : ((slots.set nextIdx none).set idx (some entry)).length = slots.length := by
            rw [length_set, length_set]
          have moved := shifting.move content (decides.mp moves)
          rw [← length] at moved
          have held : Represents ((slots.set nextIdx none).set idx (some entry)) map :=
            fun key value => (shifting.holds_moved content).trans (contents key value)
          obtain ⟨after, done, sameLength, clustered, represents, same⟩ :=
            ih _ _ _ (length.trans size) moved held (by rw [length]; omega)
          rw [length] at done sameLength clustered
          exact ⟨after, done, sameLength, clustered, represents,
            same.trans (shifting.occupancy_moved content)⟩
        · rename_i stays
          exact ih _ _ _ size
            (shifting.stay content fun onWay => stays (decides.mpr onWay)) contents (by omega)

section Operations

variable {table : ObjectTable Object} {map : AList fun _ : Nat => Object}

section

variable (implements : table.Implements map)

include implements

variable {idx key : Nat}

theorem Implements.lookup_of_found {object : Object}
    (stands : table.slots[idx]? = some (some (key, object))) : map.lookup key = some object :=
  (implements.contents key object).mp ⟨idx, stands⟩

theorem Implements.lookup_of_vacant (vacant : Vacant table.slots idx)
    (passed : Passed (hashKey · (table.slots.length - 1)) table.slots key idx) :
    map.lookup key = none := by
  refine eq_none_iff_forall_ne_some.mpr fun object held => ?_
  exact implements.clustered.not_holds_of_vacant passed vacant
    ((implements.contents key object).mpr held)

theorem Implements.get (room : map.entries.length < table.slots.length) (key : Nat) :
    table.get key = some (map.lookup key) := by
  obtain ⟨result, ends, tells⟩ := probeFor_spec implements room key
  rw [ObjectTable.get, findIndex, ends]
  cases result with
  | found idx =>
    obtain ⟨object, stands⟩ := tells
    rw [implements.lookup_of_found stands]
    simp [stands]
  | vacant idx =>
    rw [implements.lookup_of_vacant tells.1 tells.2]
    rfl

theorem Implements.write {old : Object}
    (stands : table.slots[idx]? = some (some (key, old))) (object : Object) :
    { table with slots := table.slots.set idx (some (key, object)) }.Implements
      (map.insert key object) := by
  obtain ⟨bits, size⟩ := implements.size
  have counted : occupancy (table.slots.set idx (some (key, object))) = occupancy table.slots :=
    Nat.add_right_cancel (occupancy_set stands (some (key, object)))
  refine ⟨⟨bits, ?_⟩, ?_, ?_, ?_, ?_⟩
  · rw [length_set, size]
  · rw [length_set]
    exact implements.clustered.replace stands
  · rw [lookup_insert_eq_update]
    exact implements.contents.set_stands implements.clustered.unique stands (some object)
  · rw [counted, implements.len]
  · rw [counted, implements.entries, length_insert_held (implements.lookup_of_found stands)]

theorem Implements.insert (room : map.entries.length < table.slots.length) (key : Nat)
    (object : Object) :
    ∃ after, table.insert key object = some (after, map.lookup key) ∧
      after.Implements (map.insert key object) ∧ after.slots.length = table.slots.length := by
  obtain ⟨result, ends, tells⟩ := probeFor_spec implements room key
  rw [ObjectTable.insert, ends]
  cases result with
  | found idx =>
    obtain ⟨old, stands⟩ := tells
    refine ⟨_, ?_, implements.write stands object, length_set⟩
    simp [stands, implements.lookup_of_found stands]
  | vacant idx =>
    obtain ⟨vacant, passed⟩ := tells
    obtain ⟨bits, size⟩ := implements.size
    have absent := implements.lookup_of_vacant vacant passed
    have counted : occupancy (table.slots.set idx (some (key, object))) =
        occupancy table.slots + 1 := occupancy_set vacant (some (key, object))
    refine ⟨⟨table.slots.set idx (some (key, object)), table.len + 1⟩, ?_,
      ⟨⟨bits, ?_⟩, ?_, ?_, ?_, ?_⟩, length_set⟩
    · rw [absent]
      rfl
    · rw [length_set, size]
    · rw [length_set]
      exact implements.clustered.insert (hashKey_lt size key) passed vacant
    · rw [lookup_insert_eq_update]
      exact implements.contents.set_vacant vacant absent (some object)
    · rw [counted, implements.len]
    · rw [counted, implements.entries, length_insert_absent absent]

theorem Implements.getMut (room : map.entries.length < table.slots.length) {key : Nat}
    {object : Object} (held : map.lookup key = some object) :
    ∃ write, table.getMut key = some (some (object, write)) ∧
      ∀ changed, (write changed).Implements (map.insert key changed) ∧
        (write changed).slots.length = table.slots.length := by
  obtain ⟨result, ends, tells⟩ := probeFor_spec implements room key
  rw [ObjectTable.getMut, findIndex, ends]
  cases result with
  | vacant idx =>
    rw [implements.lookup_of_vacant tells.1 tells.2] at held
    cases held
  | found idx =>
    obtain ⟨stored, stands⟩ := tells
    have same := implements.lookup_of_found stands
    rw [held] at same
    cases same
    refine ⟨_, by simp only [map_some, bind_some, stands]; rfl, fun changed => ?_⟩
    exact ⟨implements.write stands changed, length_set⟩

theorem Implements.remove (room : map.entries.length < table.slots.length) (key : Nat) :
    ∃ after, table.remove key = some (after, map.lookup key) ∧
      after.Implements (map.erase key) ∧ after.slots.length = table.slots.length := by
  obtain ⟨result, ends, tells⟩ := probeFor_spec implements room key
  obtain ⟨bits, size⟩ := implements.size
  rw [ObjectTable.remove]
  simp only [ends, bind_some]
  cases result with
  | vacant idx =>
    have absent := implements.lookup_of_vacant tells.1 tells.2
    rw [absent, erase_of_absent absent]
    exact ⟨table, rfl, implements, rfl⟩
  | found idx =>
    obtain ⟨object, stands⟩ := tells
    have held := implements.lookup_of_found stands
    obtain ⟨gap, vacant⟩ := exists_vacant (implements.entries ▸ room)
    have inside := lt_of_getElem?_eq stands
    have shifting := implements.clustered.shifting stands vacant
    have emptied := implements.contents.set_stands implements.clustered.unique stands none
    have counted : occupancy (table.slots.set idx none) + 1 = occupancy table.slots :=
      occupancy_set stands none
    have length : (table.slots.set idx none).length = table.slots.length := length_set
    have short := distance_lt shifting.scanInside (lt_of_getElem?_eq shifting.gapVacant)
    rw [length] at short
    rw [← length] at shifting
    obtain ⟨after, done, sameLength, clustered, represents, same⟩ :=
      shiftBack_spec _ _ _ _ (length.trans size) shifting emptied (by rwa [length])
    rw [length] at done sameLength clustered
    have some : table.len ≠ 0 := by
      rw [implements.len, ← counted]
      exact Nat.succ_ne_zero _
    refine ⟨⟨after, table.len - 1⟩, ?_, ⟨⟨bits, sameLength.trans size⟩, ?_, ?_, ?_, ?_⟩, sameLength⟩
    · simp only [stands, bind_some, if_neg some, succ_and_mask size inside, done, held,
        map_some]
    · rw [sameLength]
      exact clustered
    · rw [lookup_erase_eq_update]
      exact represents
    · rw [implements.len, ← counted, same, Nat.add_sub_cancel]
    · have erased := length_erase held
      have entries := implements.entries
      rw [same]
      omega

end

theorem length_keys_eq_occupancy (slots : List (Option (Nat × Object))) :
    (slots.filterMap fun slot => slot.map Prod.fst).length = occupancy slots := by
  rw [length_filterMap_eq_countP, occupancy]
  exact countP_congr fun slot _ => by rw [isSome_map]

theorem Implements.perm_keys (implements : table.Implements map) : map.keys.Perm table.keys := by
  refine (subperm_of_subset map.keys_nodup fun key member => ?_).perm_of_length_le ?_
  · obtain ⟨object, held⟩ := isSome_iff_exists.mp
      (AList.lookup_isSome.mpr (AList.mem_keys.mpr member))
    obtain ⟨slot, stands⟩ := (implements.contents key object).mpr held
    exact mem_filterMap.mpr ⟨_, mem_of_getElem? stands, rfl⟩
  · rw [ObjectTable.keys, length_keys_eq_occupancy, implements.entries, length_keys]

end Operations

theorem nextPowerOfTwo_eq (n : Nat) :
    nextPowerOfTwo n = 0 ∨ ∃ bits, nextPowerOfTwo n = 2 ^ bits := by
  obtain ⟨bits, power⟩ : ∃ bits, (if n ≤ 1 then 1 else 2 ^ ((n - 1).log2 + 1)) = 2 ^ bits := by
    split
    · exact ⟨0, rfl⟩
    · exact ⟨_, rfl⟩
  rw [nextPowerOfTwo, power]
  rcases Nat.lt_or_ge bits 64 with small | large
  · exact .inr ⟨bits, Nat.mod_eq_of_lt (Nat.pow_lt_pow_right (by decide) small)⟩
  · exact .inl (Nat.mod_eq_zero_of_dvd (Nat.pow_dvd_pow 2 large))

theorem implements_new (capacity : Nat) : (new capacity : ObjectTable Object).Implements ∅ := by
  have vacant : ∀ {count slot : Nat} {entry : Nat × Object},
      (replicate count none)[slot]? ≠ some (some entry) := by
    intro count slot entry there
    have member := mem_of_getElem? there
    exact absurd (eq_of_mem_replicate member) (some_ne_none entry)
  have size : ∃ bits, (new capacity : ObjectTable Object).slots.length = 2 ^ bits := by
    rw [new, length_replicate]
    rcases nextPowerOfTwo_eq (max capacity 1 * 2 % 2 ^ 64) with zero | ⟨bits, power⟩
    · exact ⟨4, by rw [zero]; rfl⟩
    · rw [power, show (16 : Nat) = 2 ^ 4 from rfl]
      rcases Nat.le_total (2 ^ bits) (2 ^ 4) with small | large
      · exact ⟨4, Nat.max_eq_right small⟩
      · exact ⟨bits, Nat.max_eq_left large⟩
  have none : occupancy (new capacity : ObjectTable Object).slots = 0 := by
    rw [occupancy, new, countP_replicate]
    rfl
  refine ⟨size, ⟨fun there => absurd there vacant, fun there => absurd there vacant⟩, ?_, none.symm,
    none⟩
  intro key object
  constructor
  · rintro ⟨slot, there⟩
    exact absurd there vacant
  · intro held
    cases held

/-! ### Sequences of operations -/

inductive Operation (Object : Type) where
  | insert (key : Nat) (object : Object)
  | find (key : Nat)
  | remove (key : Nat)

def apply (table : ObjectTable Object) :
    Operation Object → Option (ObjectTable Object × Option Object)
  | .insert key object => table.insert key object
  | .find key => (table.get key).map fun answer => (table, answer)
  | .remove key => table.remove key

def run (table : ObjectTable Object) :
    List (Operation Object) → Option (ObjectTable Object × List (Option Object))
  | [] => some (table, [])
  | operation :: rest =>
    (table.apply operation).bind fun (table, answer) =>
      (table.run rest).map fun (table, answers) => (table, answer :: answers)

def staysHalfFull (table : ObjectTable Object) : List (Operation Object) → Bool
  | [] => true
  | operation :: rest =>
    match table.apply operation with
    | none => true
    | some (table, _) => 2 * occupancy table.slots ≤ table.slots.length && table.staysHalfFull rest

def applyMap (map : AList fun _ : Nat => Object) :
    Operation Object → (AList fun _ : Nat => Object) × Option Object
  | .insert key object => (map.insert key object, map.lookup key)
  | .find key => (map, map.lookup key)
  | .remove key => (map.erase key, map.lookup key)

def runMap (map : AList fun _ : Nat => Object) :
    List (Operation Object) → (AList fun _ : Nat => Object) × List (Option Object)
  | [] => (map, [])
  | operation :: rest =>
    let (map, answer) := applyMap map operation
    let (map, answers) := runMap map rest
    (map, answer :: answers)

theorem Implements.apply {table : ObjectTable Object} {map : AList fun _ : Nat => Object}
    (implements : table.Implements map) (room : map.entries.length < table.slots.length)
    (operation : Operation Object) :
    ∃ after, table.apply operation = some (after, (applyMap map operation).2) ∧
      after.Implements (applyMap map operation).1 ∧
      after.slots.length = table.slots.length := by
  cases operation with
  | insert key object => exact implements.insert room key object
  | find key =>
    refine ⟨table, ?_, implements, rfl⟩
    rw [ObjectTable.apply, implements.get room key]
    rfl
  | remove key => exact implements.remove room key

theorem Implements.run {table : ObjectTable Object} {map : AList fun _ : Nat => Object}
    (implements : table.Implements map) (half : 2 * map.entries.length ≤ table.slots.length)
    (operations : List (Operation Object)) (stays : table.staysHalfFull operations = true) :
    ∃ after, table.run operations = some (after, (runMap map operations).2) ∧
      after.Implements (runMap map operations).1 := by
  induction operations generalizing table map with
  | nil => exact ⟨table, rfl, implements⟩
  | cons operation rest ih =>
    have room : map.entries.length < table.slots.length := by
      obtain ⟨bits, size⟩ := implements.size
      have some := Nat.two_pow_pos bits
      omega
    obtain ⟨next, applied, follows, length⟩ := implements.apply room operation
    rw [staysHalfFull, applied] at stays
    simp only [Bool.and_eq_true, decide_eq_true_eq] at stays
    rw [follows.entries] at stays
    obtain ⟨after, ran, final⟩ := ih follows stays.1 stays.2
    refine ⟨after, ?_, final⟩
    rw [ObjectTable.run, applied, bind_some]
    simp only [ran, map_some]
    rfl

/-- As long as at most half of the slots are full, a new table answers every sequence of
operations as the empty map does, no probe goes on for ever, and at the end the table holds the
entries of the map, each key in one slot, with `len` their number. -/
theorem answers_as_map (capacity : Nat) (operations : List (Operation Object))
    (stays : (new capacity : ObjectTable Object).staysHalfFull operations = true) :
    ∃ table : ObjectTable Object,
      (new capacity : ObjectTable Object).run operations =
        some (table, (runMap ∅ operations).2) ∧
      (∀ key object, Holds table.slots key object ↔
        (runMap ∅ operations).1.lookup key = some object) ∧
      Unique table.slots ∧
      table.len = (runMap ∅ operations).1.entries.length := by
  obtain ⟨table, ran, implements⟩ :=
    (implements_new capacity).run (Nat.zero_le _) operations stays
  exact ⟨table, ran, implements.contents, implements.clustered.unique,
    implements.len.trans implements.entries⟩

def wrapped : List (Operation Nat) :=
  [.insert 17 1, .insert 35 2, .insert 38 3, .insert 0 4, .insert 13 5, .remove 17, .find 17,
    .find 35, .find 38, .find 0, .find 13]

theorem wrapped_cluster_found :
    ∃ table : ObjectTable Nat, (new 4 : ObjectTable Nat).run wrapped = some (table,
      [none, none, none, none, none, some 1, none, some 2, some 3, some 4, some 5]) := by
  obtain ⟨table, ran, _⟩ := answers_as_map 4 wrapped (by decide +kernel)
  exact ⟨table, ran⟩

end ObjectTable

end Yip.Transport
