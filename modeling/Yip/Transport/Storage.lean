/-
This file is the reassembler over its real storage: the objects in an `ObjectTable`, the
eviction order in a queue beside it, and every panic as `none`.
-/

import Yip.Transport.Checked
import Yip.Transport.ObjectTable

namespace Yip.Transport.Checked

open LinearProbing List

/-! ### The reassembler -/

/-- The reassembler (`FecReassembler`). -/
structure Reassembler where
  symbolSize : Nat
  objects : ObjectTable ObjState
  order : List Nat
  maxObjects : Nat
  recoveredCount : Nat
  unrecoverableCount : Nat

namespace Reassembler

/-- The bytes a slot of the table takes. -/
def slotSize : Nat := 136

/-- A new reassembler; the two allocations panic if they are asked for more than `isize::MAX`
bytes. -/
def new (symbolSize maxObjects : Nat) : Option Reassembler :=
  let maxObj := max maxObjects 1
  if max (nextPowerOfTwo (maxObj * 2 % 2 ^ 64)) 16 * slotSize < 2 ^ 63 ∧
      (maxObj + 1) % 2 ^ 64 * 8 < 2 ^ 63 then
    some ⟨symbolSize, ObjectTable.new maxObj, [], maxObj, 0, 0⟩
  else none

def setSymbolSize (re : Reassembler) (s : Nat) : Reassembler := { re with symbolSize := s }

def objectShape (re : Reassembler) (objectKey objectSize : Nat) : Option (Option (Nat × Nat)) :=
  (re.objects.get objectKey).map fun
    | some existing =>
      if existing.objectSize ≠ objectSize then none else some (existing.k, existing.shardLen)
    | none => some (Transport.sourceCount objectSize re.symbolSize, re.symbolSize)

def accept (re : Reassembler) (objectKey : Nat) (symbol : Symbol) :
    Option (Option FecReassembler.Incoming) :=
  if symbol.objectSize = 0 ∨ symbol.objectSize > maxObjectSize ∨ re.symbolSize = 0 then some none
  else
    match parsePayloadId symbol.payloadId with
    | none => some none
    | some (symbolIndex, scheme) =>
      if symbolIndex ≥ 255 then some none
      else
        (re.objectShape objectKey symbol.objectSize).map fun shape =>
          shape.bind fun (k, symSize) =>
            if k = 0 ∨ k ≥ 255 then none
            else
              (FecReassembler.expectedWireLen k symSize symbol.objectSize symbolIndex).bind
                fun expected =>
                  if symbol.data.length ≠ expected then none
                  else if scheme = .pq ∧ symbolIndex ≥ k + 2 then none
                  else some ⟨symbolIndex, scheme, k, symSize⟩

def sweepFrom (objectKey nowMs : Nat) (re : Reassembler) : List Nat → Option Reassembler
  | [] => some { re with order := [] }
  | oldest :: rest =>
    if oldest = objectKey then some { re with order := oldest :: rest }
    else
      (re.objects.get oldest).bind fun
        | some state =>
          if nowMs > state.expiresAtMs ∨ state.done = true then
            (re.objects.remove oldest).bind fun (objects, _) =>
              sweepFrom objectKey nowMs
                { re with
                  objects := objects
                  unrecoverableCount :=
                    if state.done then re.unrecoverableCount
                    else FecReassembler.bump re.unrecoverableCount } rest
          else some { re with order := oldest :: rest }
        | none => sweepFrom objectKey nowMs re rest

def sweep (re : Reassembler) (objectKey nowMs : Nat) : Option Reassembler :=
  sweepFrom objectKey nowMs re re.order

def evict (re : Reassembler) : Option Reassembler :=
  match re.order with
  | [] => some re
  | oldest :: rest =>
    (re.objects.remove oldest).map fun (objects, removed) =>
      { re with
        order := rest
        objects := objects
        unrecoverableCount :=
          match removed with
          | some state =>
            if state.done then re.unrecoverableCount
            else FecReassembler.bump re.unrecoverableCount
          | none => re.unrecoverableCount }

def enter (re : Reassembler) (objectKey : Nat) (incoming : FecReassembler.Incoming)
    (objectSize nowMs deadlineMs : Nat) : Option Reassembler :=
  (re.objects.containsKey objectKey).bind fun known =>
    if known then some re
    else
      (if re.objects.len ≥ re.maxObjects then re.evict else some re).bind fun re =>
        (re.objects.insert objectKey
            (FecReassembler.fresh incoming objectSize nowMs deadlineMs)).map fun (objects, _) =>
          { re with objects := objects, order := re.order ++ [objectKey] }

def push (re : Reassembler) (objectKey : Nat) (symbol : Symbol) (nowMs deadlineMs : Nat) :
    Option (Reassembler × Option (List Byte)) :=
  (re.accept objectKey symbol).bind fun
    | none => some (re, none)
    | some incoming =>
      (re.sweep objectKey nowMs).bind fun re =>
        (re.enter objectKey incoming symbol.objectSize nowMs deadlineMs).bind fun re =>
          (re.objects.getMut objectKey).bind fun
            | none => some (re, none)
            | some (state, write) =>
              (ingest state incoming.symbolIndex incoming.scheme symbol.data nowMs).map
                fun (state, object, recovered) =>
                  ({ re with
                      objects := write state
                      recoveredCount :=
                        if recovered then (re.recoveredCount + 1) % 2 ^ 64
                        else re.recoveredCount },
                    object)

def step (re : Reassembler) : FecReassembler.Event → Option Reassembler
  | .push objectKey symbol nowMs deadlineMs =>
    (re.push objectKey symbol nowMs deadlineMs).map Prod.fst
  | .setSymbolSize size => some (re.setSymbolSize size)

def run (re : Reassembler) (events : List FecReassembler.Event) : Option Reassembler :=
  events.foldlM step re

/-! ### In step with the reassembler over a map -/

/-- The table-based reassembler stands for the abstract one. -/
structure Refines (re : Reassembler) (model : FecReassembler) : Prop where
  symbolSize : re.symbolSize = model.symbolSize
  objects : re.objects.Implements model.objects
  order : re.order = model.order
  maxObjects : re.maxObjects = model.maxObjects
  recovered : re.recoveredCount = model.recoveredCount % 2 ^ 64
  unrecoverable : re.unrecoverableCount = model.unrecoverableCount
  room : 2 * model.maxObjects ≤ re.objects.slots.length

structure Stored (model : FecReassembler) : Prop where
  distinct : model.order.Nodup
  queue : ∀ key, key ∈ model.order ↔ ∃ state, model.objects.lookup key = some state
  bounded : model.objects.entries.length ≤ model.maxObjects
  positive : 0 < model.maxObjects
  shaped : ∀ key state, model.objects.lookup key = some state → ∃ size, state.Shaped size
  kept : ∀ key state, model.objects.lookup key = some state → Kept state

theorem Stored.perm_keys {model : FecReassembler} (stored : Stored model) :
    model.order.Perm model.objects.keys := by
  refine (perm_ext_iff_of_nodup stored.distinct model.objects.keys_nodup).mpr fun key => ?_
  rw [stored.queue, ← AList.mem_keys, ← AList.lookup_isSome, Option.isSome_iff_exists]

section Steps

variable {re : Reassembler} {model : FecReassembler}

theorem Stored.vacancy (stored : Stored model) {slots : Nat} (room : 2 * model.maxObjects ≤ slots) :
    model.objects.entries.length < slots := by
  have bounded := stored.bounded
  have positive := stored.positive
  omega

theorem Refines.accept (refines : Refines re model) (stored : Stored model) (objectKey : Nat)
    (symbol : Symbol) : re.accept objectKey symbol = some (model.accept objectKey symbol) := by
  have shape : re.objectShape objectKey symbol.objectSize =
      some (model.objectShape objectKey symbol.objectSize) := by
    rw [objectShape, FecReassembler.objectShape,
      refines.objects.get (stored.vacancy refines.room), refines.symbolSize]
    cases model.objects.lookup objectKey <;> rfl
  rw [Reassembler.accept, FecReassembler.accept, refines.symbolSize]
  split
  · rfl
  · cases parsePayloadId symbol.payloadId with
    | none => rfl
    | some parsed =>
      simp only [Option.bind_some, shape, Option.map_some]
      split <;> rfl

theorem Stored.drop {oldest : Nat} {rest : List Nat}
    (stored : Stored { model with order := oldest :: rest }) (count : Nat) :
    Stored { model with
      objects := model.objects.erase oldest, order := rest, unrecoverableCount := count } := by
  obtain ⟨absent, distinct⟩ := nodup_cons.mp stored.distinct
  obtain ⟨state, held⟩ : ∃ state, model.objects.lookup oldest = some state :=
    (stored.queue oldest).mp mem_cons_self
  have bounded : model.objects.entries.length ≤ model.maxObjects := stored.bounded
  have before : ∀ key other, (model.objects.erase oldest).lookup key = some other →
      model.objects.lookup key = some other := by
    intro key other there
    by_cases same : key = oldest
    · rw [same, AList.lookup_erase] at there
      cases there
    · rwa [AList.lookup_erase_ne same] at there
  refine ⟨distinct, fun key => ?_, ?_, stored.positive,
    fun key other there => stored.shaped key other (before key other there),
    fun key other there => stored.kept key other (before key other there)⟩
  · have queue := stored.queue key
    by_cases same : key = oldest
    · subst same
      simp only [AList.lookup_erase, reduceCtorEq, exists_false, iff_false]
      exact absent
    · rw [mem_cons, or_iff_right same] at queue
      simp only [AList.lookup_erase_ne same]
      exact queue
  · have erased := Assoc.length_erase held
    show (model.objects.erase oldest).entries.length ≤ model.maxObjects
    omega

theorem Refines.sweepFrom (objectKey nowMs : Nat) (queue : List Nat) (refines : Refines re model)
    (stored : Stored { model with order := queue }) :
    ∃ after, re.sweepFrom objectKey nowMs queue = some after ∧
      Refines after (model.sweepFrom objectKey nowMs queue) ∧
      Stored (model.sweepFrom objectKey nowMs queue) := by
  induction queue generalizing re model with
  | nil => exact ⟨_, rfl, { refines with order := rfl }, stored⟩
  | cons oldest rest ih =>
    rw [Reassembler.sweepFrom, FecReassembler.sweepFrom]
    by_cases own : oldest = objectKey
    · rw [if_pos own, if_pos own]
      exact ⟨_, rfl, { refines with order := rfl }, stored⟩
    · have vacancy : model.objects.entries.length < re.objects.slots.length :=
        stored.vacancy refines.room
      obtain ⟨state, held⟩ := (stored.queue oldest).mp mem_cons_self
      simp only [if_neg own, refines.objects.get vacancy, Option.bind_some, held]
      split
      · obtain ⟨objects, removed, implements, slots⟩ := refines.objects.remove vacancy oldest
        rw [removed, Option.bind_some, refines.unrecoverable]
        refine ih ⟨refines.symbolSize, implements, refines.order,
          refines.maxObjects, refines.recovered, rfl, ?_⟩ (stored.drop _)
        rw [slots]
        exact refines.room
      · exact ⟨_, rfl, { refines with order := rfl }, stored⟩

theorem Refines.sweep (refines : Refines re model) (stored : Stored model) (objectKey nowMs : Nat) :
    ∃ after, re.sweep objectKey nowMs = some after ∧
      Refines after (model.sweep objectKey nowMs) ∧ Stored (model.sweep objectKey nowMs) := by
  rw [Reassembler.sweep, refines.order]
  exact refines.sweepFrom objectKey nowMs model.order stored

theorem Refines.evict (refines : Refines re model) (stored : Stored model)
    (full : model.objects.entries.length ≥ model.maxObjects) :
    ∃ after, re.evict = some after ∧ Refines after model.evict ∧ Stored model.evict ∧
      model.evict.objects.entries.length < model.evict.maxObjects := by
  have vacancy := stored.vacancy refines.room
  have bounded := stored.bounded
  rw [Reassembler.evict, FecReassembler.evict, refines.order]
  cases queue : model.order with
  | nil =>
    -- The table is not empty, and the queue lists its objects.
    obtain ⟨entry, member⟩ :=
      exists_mem_of_length_pos (Nat.lt_of_lt_of_le stored.positive full)
    have listed := (stored.queue entry.1).mpr ⟨entry.2, AList.mem_lookup_iff.mpr member⟩
    rw [queue] at listed
    cases listed
  | cons oldest rest =>
    obtain ⟨state, held⟩ := (stored.queue oldest).mp (by rw [queue]; exact mem_cons_self)
    obtain ⟨objects, removed, implements, slots⟩ := refines.objects.remove vacancy oldest
    have erased := Assoc.length_erase held
    have same : Stored { model with order := oldest :: rest } := queue ▸ stored
    simp only [removed, held, Option.map_some]
    refine ⟨_, rfl, ⟨refines.symbolSize, implements, rfl, refines.maxObjects, refines.recovered,
      by rw [refines.unrecoverable], ?_⟩, same.drop _, by omega⟩
    rw [slots]
    exact refines.room

variable {objectKey : Nat} {state : ObjState} {incoming : FecReassembler.Incoming}

theorem forall_lookup_insert {objects : AList fun _ : Nat => ObjState} {property : ObjState → Prop}
    (new : property state) (old : ∀ key other, objects.lookup key = some other → property other)
    (key : Nat) (other : ObjState)
    (there : (objects.insert objectKey state).lookup key = some other) : property other := by
  by_cases same : key = objectKey
  · rw [same, AList.lookup_insert] at there
    cases there
    exact new
  · rw [AList.lookup_insert_ne same] at there
    exact old key other there

theorem Stored.insert (stored : Stored model) (absent : model.objects.lookup objectKey = none)
    (below : model.objects.entries.length < model.maxObjects) (shaped : ∃ size, state.Shaped size)
    (kept : Kept state) :
    Stored { model with
      objects := model.objects.insert objectKey state, order := model.order ++ [objectKey] } := by
  have fresh : objectKey ∉ model.order := by
    intro listed
    obtain ⟨other, held⟩ := (stored.queue objectKey).mp listed
    rw [absent] at held
    cases held
  refine ⟨?_, fun key => ?_, ?_, stored.positive,
    forall_lookup_insert shaped stored.shaped, forall_lookup_insert kept stored.kept⟩
  · rw [← concat_eq_append, nodup_concat]
    exact ⟨fresh, stored.distinct⟩
  · by_cases same : key = objectKey
    · subst same
      simp
    · simp only [mem_append, mem_singleton, same, or_false, AList.lookup_insert_ne same]
      exact stored.queue key
  · show (model.objects.insert objectKey state).entries.length ≤ model.maxObjects
    rw [Assoc.length_insert_absent absent]
    omega

def makeRoom (model : FecReassembler) : FecReassembler :=
  if model.objects.entries.length ≥ model.maxObjects then model.evict else model

theorem Refines.makeRoom (refines : Refines re model) (stored : Stored model)
    (absent : model.objects.lookup objectKey = none) :
    ∃ after, (if re.objects.len ≥ re.maxObjects then re.evict else some re) = some after ∧
      Refines after (makeRoom model) ∧ Stored (makeRoom model) ∧
      (makeRoom model).objects.entries.length < (makeRoom model).maxObjects ∧
      (makeRoom model).objects.lookup objectKey = none := by
  have len : re.objects.len = model.objects.entries.length :=
    refines.objects.len.trans refines.objects.entries
  rw [len, refines.maxObjects, Reassembler.makeRoom]
  split
  · rename_i full
    obtain ⟨after, evicted, follows, keeps, below⟩ := refines.evict stored full
    have dropped := (FecReassembler.evict_drops absent).lookup.1
    exact ⟨after, evicted, follows, keeps, below, dropped.trans absent⟩
  · rename_i below
    exact ⟨re, rfl, refines, stored, not_le.mp below, absent⟩

theorem Refines.enter (refines : Refines re model) (stored : Stored model) (objectKey : Nat)
    (objectSize nowMs deadlineMs : Nat) (room : incoming.k < 255)
    (shaped : model.objects.lookup objectKey = none →
      ∃ size, (FecReassembler.fresh incoming objectSize nowMs deadlineMs).Shaped size) :
    ∃ after, re.enter objectKey incoming objectSize nowMs deadlineMs = some after ∧
      Refines after (model.enter objectKey incoming objectSize nowMs deadlineMs) ∧
      Stored (model.enter objectKey incoming objectSize nowMs deadlineMs) := by
  rw [Reassembler.enter, FecReassembler.enter, ObjectTable.containsKey,
    refines.objects.get (stored.vacancy refines.room)]
  cases known : model.objects.lookup objectKey with
  | some state => exact ⟨re, rfl, refines, stored⟩
  | none =>
    obtain ⟨spaced, made, follows, keeps, below, absent⟩ := refines.makeRoom stored known
    obtain ⟨objects, inserted, implements, slots⟩ := follows.objects.insert
      (keeps.vacancy follows.room) objectKey
      (FecReassembler.fresh incoming objectSize nowMs deadlineMs)
    simp only [Option.map_some, Option.bind_some, Option.isSome_none, Bool.false_eq_true, if_false,
      made, inserted]
    refine ⟨_, rfl, ⟨follows.symbolSize, implements, ?_, follows.maxObjects, follows.recovered,
      follows.unrecoverable, ?_⟩, keeps.insert absent below (shaped known) (kept_fresh room _ _ _)⟩
    · show spaced.order ++ [objectKey] = (Reassembler.makeRoom model).order ++ [objectKey]
      rw [follows.order]
    · rw [slots]
      exact follows.room

theorem Stored.update (stored : Stored model) {old : ObjState}
    (held : model.objects.lookup objectKey = some old) (shaped : ∃ size, state.Shaped size)
    (kept : Kept state) (recovered : Nat) :
    Stored { model with
      objects := model.objects.insert objectKey state, recoveredCount := recovered } := by
  refine ⟨stored.distinct, fun key => ?_, ?_, stored.positive,
    forall_lookup_insert shaped stored.shaped, forall_lookup_insert kept stored.kept⟩
  · rw [stored.queue key]
    by_cases same : key = objectKey
    · subst same
      simp [held]
    · simp only [AList.lookup_insert_ne same]
  · rw [Assoc.length_insert_held held]
    exact stored.bounded

theorem accepted_valid {symbol : Symbol} (accepted : model.accept objectKey symbol = some incoming)
    (stored : Stored model) (nowMs deadlineMs : Nat) {start : ObjState}
    (start_eq : start = model.start objectKey incoming symbol.objectSize nowMs deadlineMs) :
    (∃ size, start.Shaped size) ∧ symbol.data.length ≤ start.shardLen ∧
      (incoming.scheme = start.scheme → Valid start.scheme start.k incoming.symbolIndex) := by
  obtain ⟨size, shaped, sizeEq, _, within, wire⟩ := FecReassembler.accepted_fits accepted
    (fun state held => stored.shaped objectKey state held) nowMs deadlineMs
  rw [← start_eq] at shaped sizeEq within wire
  have valid : start.coding.Valid (replicate start.objectSize 0) :=
    shaped.valid length_replicate
  refine ⟨⟨size, shaped⟩, ?_, fun same => ?_⟩
  · have bound := wireLen_le valid incoming.symbolIndex
    rw [length_replicate, sizeEq] at bound
    rw [wire]
    exact bound
  · have limit := within same
    have room := shaped.room
    simp only [ObjState.coding] at limit
    refine ⟨by omega, fun isPq => ?_⟩
    rw [isPq] at limit
    simp only [Rs.Scheme.repairLimit] at limit
    omega

theorem Refines.push (refines : Refines re model) (stored : Stored model) (objectKey : Nat)
    (symbol : Symbol) (nowMs deadlineMs : Nat) :
    ∃ after, re.push objectKey symbol nowMs deadlineMs =
        some (after, (model.push objectKey symbol nowMs deadlineMs).2) ∧
      Refines after (model.push objectKey symbol nowMs deadlineMs).1 ∧
      Stored (model.push objectKey symbol nowMs deadlineMs).1 := by
  rw [Reassembler.push, FecReassembler.push, refines.accept stored, Option.bind_some]
  cases accepted : model.accept objectKey symbol with
  | none => exact ⟨re, rfl, refines, stored⟩
  | some incoming =>
    obtain ⟨shaped, short, valid⟩ := accepted_valid accepted stored nowMs deadlineMs rfl
    obtain ⟨_, _, _, _, ⟨_, room⟩, _, _⟩ := FecReassembler.accept_spec accepted
    have own : (model.sweep objectKey nowMs).objects.lookup objectKey =
        model.objects.lookup objectKey := (sweepFrom_object objectKey nowMs model model.order).1
    obtain ⟨swept, sweeps, sweptRefines, sweptStored⟩ := refines.sweep stored objectKey nowMs
    obtain ⟨entered, enters, enteredRefines, enteredStored⟩ := sweptRefines.enter sweptStored
      objectKey symbol.objectSize nowMs deadlineMs room fun none => by
        rw [FecReassembler.start, ← own, none] at shaped
        exact shaped
    obtain ⟨held, _⟩ := enter_object (model.sweep objectKey nowMs) objectKey incoming
      symbol.objectSize nowMs deadlineMs
    rw [own] at held
    obtain ⟨write, found, written⟩ := enteredRefines.objects.getMut
      (enteredStored.vacancy enteredRefines.room) held
    obtain ⟨works, kept⟩ := (enteredStored.kept objectKey _ held).ingest nowMs short valid
    simp only [sweeps, enters, found, works, held, Option.bind_some, Option.map_some]
    obtain ⟨implements, slots⟩ := written
      ((model.start objectKey incoming symbol.objectSize nowMs deadlineMs).ingest
        incoming.symbolIndex incoming.scheme symbol.data nowMs).1
    refine ⟨_, rfl, ⟨enteredRefines.symbolSize, implements, enteredRefines.order,
      enteredRefines.maxObjects, ?_, enteredRefines.unrecoverable, ?_⟩, enteredStored.update held
      ?_ kept _⟩
    · have recovered := enteredRefines.recovered
      split
      · rw [recovered, Nat.mod_add_mod]
      · exact recovered
    · exact enteredRefines.room.trans slots.ge
    · obtain ⟨size, shaped⟩ := shaped
      exact ⟨size, (alike_ingest _ _ _ _ _).shaped shaped⟩

end Steps

/-! ### Every run -/

theorem le_nextPowerOfTwo {n : Nat} (bound : n ≤ 2 ^ 63) : n ≤ nextPowerOfTwo n := by
  rw [nextPowerOfTwo]
  split
  · omega
  · rename_i several
    have above : n - 1 < 2 ^ ((n - 1).log2 + 1) := Nat.lt_log2_self
    have exponent : (n - 1).log2 < 63 := (Nat.log2_lt (by omega)).mpr (by omega)
    rw [Nat.mod_eq_of_lt (Nat.pow_lt_pow_right (by decide) (by omega))]
    omega

theorem refines_new {symbolSize maxObjects : Nat} {re : Reassembler}
    (small : maxObjects < 2 ^ 64 - 1) (created : new symbolSize maxObjects = some re) :
    Refines re (FecReassembler.new symbolSize maxObjects) ∧
      Stored (FecReassembler.new symbolSize maxObjects) := by
  rw [new] at created
  split at created
  · obtain ⟨-, allocated⟩ := ‹_ ∧ _›
    cases created
    have positive : 0 < max maxObjects 1 := Nat.lt_of_lt_of_le one_pos (Nat.le_max_right _ _)
    rw [Nat.mod_eq_of_lt (by omega)] at allocated
    have power : max maxObjects 1 * 2 ≤ nextPowerOfTwo (max maxObjects 1 * 2) :=
      le_nextPowerOfTwo (by omega)
    refine ⟨⟨rfl, ObjectTable.implements_new _, rfl, rfl, rfl, rfl, ?_⟩,
      ⟨nodup_nil, ?_, Nat.zero_le _, positive, ?_, ?_⟩⟩
    · show 2 * max maxObjects 1 ≤ (ObjectTable.new (max maxObjects 1)).slots.length
      rw [ObjectTable.new, length_replicate, max_eq_left (Nat.succ_le_of_lt positive),
        Nat.mod_eq_of_lt (by omega)]
      omega
    · intro key
      simp [FecReassembler.new]
    · intro key state held
      simp [FecReassembler.new] at held
    · intro key state held
      simp [FecReassembler.new] at held
  · cases created

theorem Refines.step {re : Reassembler} {model : FecReassembler} (refines : Refines re model)
    (stored : Stored model) (event : FecReassembler.Event) :
    ∃ after, re.step event = some after ∧ Refines after (model.step event) ∧
      Stored (model.step event) := by
  cases event with
  | push objectKey symbol nowMs deadlineMs =>
    obtain ⟨after, pushed, follows, keeps⟩ := refines.push stored objectKey symbol nowMs deadlineMs
    refine ⟨after, ?_, follows, keeps⟩
    rw [Reassembler.step, pushed]
    rfl
  | setSymbolSize size =>
    exact ⟨_, rfl, { refines with symbolSize := rfl }, { stored with }⟩

theorem Refines.run {re : Reassembler} {model : FecReassembler} (refines : Refines re model)
    (stored : Stored model) (events : List FecReassembler.Event) :
    ∃ after, re.run events = some after ∧
      Refines after (Machine.run FecReassembler.step model events) ∧
      Stored (Machine.run FecReassembler.step model events) := by
  induction events generalizing re model with
  | nil => exact ⟨re, rfl, refines, stored⟩
  | cons event rest ih =>
    obtain ⟨next, stepped, follows, keeps⟩ := refines.step stored event
    obtain ⟨after, ran, result⟩ := ih follows keeps
    refine ⟨after, ?_, result⟩
    rw [Reassembler.run, foldlM_cons, stepped]
    exact ran

/-- The eviction order lists the keys of the table once each, and neither more than `max_objects`
objects are held nor more than half of the slots taken. -/
structure Sound (re : Reassembler) : Prop where
  distinct : re.order.Nodup
  queue : re.order.Perm re.objects.keys
  len : re.objects.len = occupancy re.objects.slots
  bounded : re.objects.len ≤ re.maxObjects
  half : 2 * re.objects.len ≤ re.objects.slots.length

theorem Refines.sound {re : Reassembler} {model : FecReassembler} (refines : Refines re model)
    (stored : Stored model) : Sound re := by
  have len : re.objects.len = model.objects.entries.length :=
    refines.objects.len.trans refines.objects.entries
  have room := refines.room
  have bounded := stored.bounded
  refine ⟨refines.order ▸ stored.distinct, ?_, refines.objects.len, ?_, by omega⟩
  · rw [refines.order]
    exact (stored.perm_keys).trans refines.objects.perm_keys
  · rw [len, refines.maxObjects]
    exact bounded

/-- Whatever is pushed at whatever times and with whatever changes of the symbol size, no push
panics or goes on for ever, and the storage invariant holds. -/
theorem storage_sound (symbolSize maxObjects : Nat) (small : maxObjects < 2 ^ 64 - 1)
    (re : Reassembler) (created : new symbolSize maxObjects = some re)
    (events : List FecReassembler.Event) :
    ∃ after, re.run events = some after ∧ Sound after := by
  obtain ⟨refines, stored⟩ := refines_new small created
  obtain ⟨after, ran, refines, stored⟩ := refines.run stored events
  exact ⟨after, ran, refines.sound stored⟩

def firstSymbols (count : Nat) : List FecReassembler.Event :=
  (List.range count).map fun key =>
    .push key ⟨key, 2, packPayloadId 0 Rs.Scheme.cauchy.toU8, [0]⟩ 0 100

/-- Eleven objects where four are allowed. -/
theorem eleven_objects_in_four_places :
    ∃ re after, new 1 4 = some re ∧ re.run (firstSymbols 11) = some after ∧ Sound after := by
  have created : new 1 4 = some ⟨1, ObjectTable.new 4, [], 4, 0, 0⟩ := by
    rw [new]
    exact if_pos (by decide +kernel)
  obtain ⟨after, ran, sound⟩ := storage_sound 1 4 (by decide) _ created (firstSymbols 11)
  exact ⟨_, after, created, ran, sound⟩

end Reassembler

end Yip.Transport.Checked
