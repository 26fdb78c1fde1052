/-
This file follows the objects of a reassembler through any pushes at all, honest or not.
-/

import Yip.Transport.Reassembly

namespace Yip.Transport

open ArrayList Rs FecEncoder List

/-! ### Erasing the bytes -/

def blank (bytes : List Byte) : List Byte := bytes.map fun _ => 0

theorem length_blank (bytes : List Byte) : (blank bytes).length = bytes.length :=
  length_map _

theorem blank_eq_replicate (bytes : List Byte) : blank bytes = List.replicate bytes.length 0 :=
  map_const'

theorem blank_copyInto (values data : List Byte) (offset : Nat) :
    blank (copyInto values offset data) = copyInto (blank values) offset (blank data) := by
  simp only [blank, copyInto, map_append, map_take, map_drop, length_map]

variable (k shardLen : Nat) (incoming : FecReassembler.Incoming) (state : ObjState) (index : Nat)

/-- The state without the bytes, which decide nothing about progress. -/
def ObjState.erase (state : ObjState) : ObjState :=
  { state with
    payload := blank state.payload
    repairShards := state.repairShards.map fun shard => (shard.1, blank shard.2) }

theorem map_fst_fillRows (rows rows' : List (Nat × ShardRef))
    (shards : List (Nat × List Byte)) (same : rows.map Prod.fst = rows'.map Prod.fst) :
    (fillRows k shardLen rows (shards.map fun shard => (shard.1, blank shard.2))).map Prod.fst =
      (fillRows k shardLen rows' shards).map Prod.fst := by
  induction shards generalizing rows rows' with
  | nil => exact same
  | cons shard rest ih =>
    have length : rows.length = rows'.length := by
      simpa using congrArg length same
    rw [map_cons, fillRows, fillRows, length_blank, length]
    split
    · exact same
    · split
      · exact ih _ _ same
      · exact ih _ _ (by simp [same])

theorem isSome_reconstruct_blank (payload : List Byte)
    (seenMask : List (BitVec 64)) (shards : List (Nat × List Byte)) (scheme : Scheme) :
    (reconstructMissingSources k shardLen (blank payload) seenMask
        (shards.map fun shard => (shard.1, blank shard.2)) scheme).isSome =
      (reconstructMissingSources k shardLen payload seenMask shards scheme).isSome := by
  have indices : (selectRows k shardLen seenMask
        (shards.map fun shard => (shard.1, blank shard.2))).map Prod.fst =
      (selectRows k shardLen seenMask shards).map Prod.fst := map_fst_fillRows _ _ _ _ _ rfl
  have length := congrArg length indices
  simp only [length_map] at length
  have index : ∀ (rows : List (Nat × ShardRef)) (row : Nat),
      (rows.getD row (0, ShardRef.repair [])).1 = (rows.map Prod.fst).getD row 0 :=
    fun rows row => (getD_map rows (0, ShardRef.repair []) Prod.fst).symm
  have beyond : ∀ rows : List (Nat × ShardRef),
      (rows.any fun row => decide (k ≤ row.1 ∧ scheme = .pq ∧ 2 ≤ row.1 - k)) =
        (rows.map Prod.fst).any fun index => decide (k ≤ index ∧ scheme = .pq ∧ 2 ≤ index - k) :=
    fun rows => by rw [any_map]; rfl
  unfold reconstructMissingSources
  simp only [length_blank, length, beyond, indices, index]
  split
  · rfl
  · split
    · rfl
    · split
      · rfl
      · rw [Option.isSome_map, Option.isSome_map]

section Erase

variable (state : ObjState) (index : Nat) (scheme : Scheme) (data : List Byte) (nowMs : Nat)

theorem erase_store : (state.store index data).erase = state.erase.store index (blank data) := by
  unfold ObjState.store ObjState.erase
  dsimp only
  split
  · simp only [blank_copyInto, length_blank]
    simp only [blank, map_take]
  · simp [blank, map_append]

theorem erase_complete :
    state.erase.complete.1 = state.complete.1.erase ∧
      state.erase.complete.2.1.isSome = state.complete.2.1.isSome ∧
      state.erase.complete.2.2 = state.complete.2.2 := by
  have success := isSome_reconstruct_blank state.k state.shardLen state.payload state.seenMask
    state.repairShards state.scheme
  unfold ObjState.complete
  dsimp only [ObjState.erase]
  split
  · exact ⟨rfl, rfl, rfl⟩
  · cases result : reconstructMissingSources state.k state.shardLen state.payload state.seenMask
      state.repairShards state.scheme with
    | none =>
      rw [result, Option.isSome_none, Option.isSome_eq_false_iff,
        Option.isNone_iff_eq_none] at success
      rw [success]
      exact ⟨rfl, rfl, rfl⟩
    | some restored =>
      rw [result] at success
      obtain ⟨blanked, equal⟩ := Option.isSome_iff_exists.mp success
      rw [equal]
      exact ⟨rfl, rfl, rfl⟩

theorem erase_ingest :
    (state.erase.ingest index scheme (blank data) nowMs).1 =
        (state.ingest index scheme data nowMs).1.erase ∧
      (state.erase.ingest index scheme (blank data) nowMs).2.1.isSome =
        (state.ingest index scheme data nowMs).2.1.isSome := by
  rw [ObjState.ingest, ObjState.ingest, ← erase_store state index data]
  by_cases late : nowMs > state.expiresAtMs
  · rw [if_pos (show nowMs > state.erase.expiresAtMs from late), if_pos late]
    exact ⟨rfl, rfl⟩
  rw [if_neg (show ¬ nowMs > state.erase.expiresAtMs from late), if_neg late]
  by_cases done : state.done = true
  · rw [if_pos (show state.erase.done = true from done), if_pos done]
    exact ⟨rfl, rfl⟩
  rw [if_neg (show ¬ state.erase.done = true from done), if_neg done]
  by_cases other : state.scheme ≠ scheme
  · rw [if_pos (show state.erase.scheme ≠ scheme from other), if_pos other]
    exact ⟨rfl, rfl⟩
  rw [if_neg (show ¬ state.erase.scheme ≠ scheme from other), if_neg other]
  by_cases seen : isSeen state.seenMask index = true
  · rw [if_pos (show isSeen state.erase.seenMask index = true from seen), if_pos seen]
    exact ⟨rfl, rfl⟩
  rw [if_neg (show ¬ isSeen state.erase.seenMask index = true from seen), if_neg seen]
  by_cases few : (state.store index data).totalCount < (state.store index data).k
  · rw [if_pos few, if_pos (show (state.store index data).erase.totalCount <
      (state.store index data).erase.k from few)]
    exact ⟨rfl, rfl⟩
  · rw [if_neg few, if_neg (show ¬ (state.store index data).erase.totalCount <
      (state.store index data).erase.k from few)]
    obtain ⟨same, returned, _⟩ := erase_complete (state.store index data)
    exact ⟨same, returned⟩

end Erase

/-! ### Objects in collection -/

/-- The object is cut by this symbol size. -/
structure ObjState.Shaped (state : ObjState) (size : Nat) : Prop where
  positive : 0 < size
  nonempty : 0 < state.objectSize
  k_eq : state.k = Transport.sourceCount state.objectSize size
  room : state.k < 255
  shardLen_eq : state.shardLen = Transport.shardLen state.objectSize size

def ObjState.coding (state : ObjState) : Coding where
  k := state.k
  repairs := min (state.scheme.repairLimit state.k) (255 - state.k)
  shardLen := state.shardLen
  scheme := state.scheme

variable {ciphertext : List Byte} {size : Nat}

theorem ObjState.Shaped.valid {state : ObjState} (shaped : state.Shaped size)
    (length : ciphertext.length = state.objectSize) :
    state.coding.Valid ciphertext where
  some := by
    rw [ObjState.coding, shaped.k_eq]
    exact (shape _ _ shaped.nonempty shaped.positive).1
  room := shaped.room
  covers := by
    rw [ObjState.coding, shaped.k_eq, shaped.shardLen_eq, length]
    exact shard_shape shaped.nonempty shaped.positive
  fits := by
    rw [ObjState.coding, shaped.shardLen_eq, length]
    exact min_le_left _ _
  within := min_le_left _ _
  indices := by
    have room := shaped.room
    simp only [ObjState.coding]
    omega

/-- Shards of the ciphertext, but not yet enough. -/
structure Collecting (ciphertext : List Byte) (state : ObjState) (seen : List Nat) : Prop where
  pending : state.done = false
  few : seen.length < state.k
  collected : Collected ciphertext state.coding state seen

structure ObjState.Alike (state after : ObjState) : Prop where
  k_eq : after.k = state.k
  shardLen_eq : after.shardLen = state.shardLen
  objectSize_eq : after.objectSize = state.objectSize
  scheme_eq : after.scheme = state.scheme
  expires_eq : after.expiresAtMs = state.expiresAtMs

theorem ObjState.Alike.coding_eq {state after : ObjState} (alike : state.Alike after) :
    after.coding = state.coding := by
  rw [ObjState.coding, ObjState.coding, alike.k_eq, alike.shardLen_eq, alike.scheme_eq]

theorem ObjState.Alike.shaped {state after : ObjState} (alike : state.Alike after)
    (shaped : state.Shaped size) : after.Shaped size where
  positive := shaped.positive
  nonempty := by rw [alike.objectSize_eq]; exact shaped.nonempty
  k_eq := by rw [alike.k_eq, alike.objectSize_eq]; exact shaped.k_eq
  room := by rw [alike.k_eq]; exact shaped.room
  shardLen_eq := by rw [alike.shardLen_eq, alike.objectSize_eq]; exact shaped.shardLen_eq

theorem alike_store (data : List Byte) : state.Alike (state.store index data) := by
  obtain ⟨k, shardLen, objectSize, scheme, _, expires, _⟩ := store_fields state index data
  exact ⟨k, shardLen, objectSize, scheme, expires⟩

theorem alike_complete : state.Alike state.complete.1 := by
  unfold ObjState.complete
  dsimp only
  split
  · exact ⟨rfl, rfl, rfl, rfl, rfl⟩
  · split <;> exact ⟨rfl, rfl, rfl, rfl, rfl⟩

theorem ObjState.Alike.trans {first second third : ObjState} (head : first.Alike second)
    (tail : second.Alike third) : first.Alike third :=
  ⟨tail.k_eq.trans head.k_eq, tail.shardLen_eq.trans head.shardLen_eq,
    tail.objectSize_eq.trans head.objectSize_eq, tail.scheme_eq.trans head.scheme_eq,
    tail.expires_eq.trans head.expires_eq⟩

theorem alike_ingest (scheme : Scheme) (data : List Byte)
    (nowMs : Nat) : state.Alike (state.ingest index scheme data nowMs).1 := by
  have same : state.Alike state := ⟨rfl, rfl, rfl, rfl, rfl⟩
  unfold ObjState.ingest
  split
  · exact ⟨rfl, rfl, rfl, rfl, rfl⟩
  · split
    · exact same
    · split
      · exact same
      · split
        · exact same
        · dsimp only
          split
          · exact alike_store state index data
          · exact (alike_store state index data).trans (alike_complete _)

theorem ingest_of_done {state : ObjState} (done : state.done = true) (index : Nat)
    (scheme : Scheme) (data : List Byte) (nowMs : Nat) :
    (state.ingest index scheme data nowMs).1.done = true ∧
      (state.ingest index scheme data nowMs).2.1 = none := by
  unfold ObjState.ingest
  by_cases late : nowMs > state.expiresAtMs
  · rw [if_pos late]
    exact ⟨rfl, rfl⟩
  · rw [if_neg late, if_pos done]
    exact ⟨done, rfl⟩

theorem Collecting.ingest {state : ObjState} {seen : List Nat}
    (collecting : Collecting ciphertext state seen) (valid : state.coding.Valid ciphertext)
    {index : Nat} {scheme : Scheme} {data : List Byte} (nowMs : Nat)
    (shard : scheme = state.scheme → index < state.k + state.coding.repairs ∧
      IsShard ciphertext state.k state.shardLen scheme index data) :
    (state.expiresAtMs < nowMs ∧ (state.ingest index scheme data nowMs).1.done = true ∧
        (state.ingest index scheme data nowMs).2.1 = none) ∨
      ((state.ingest index scheme data nowMs).1.done = true ∧
        (state.ingest index scheme data nowMs).2.1 = some ciphertext ∧
        index ∉ seen ∧ seen.length + 1 = state.k) ∨
      ((state.ingest index scheme data nowMs).2.1 = none ∧
        ∃ seen', Collecting ciphertext (state.ingest index scheme data nowMs).1 seen' ∧
          ∀ other ∈ seen', other ∈ seen ∨ other = index) := by
  obtain ⟨pending, few, collected⟩ := collecting
  have unchanged : ∃ seen', Collecting ciphertext state seen' ∧
      ∀ other ∈ seen', other ∈ seen ∨ other = index :=
    ⟨seen, ⟨pending, few, collected⟩, fun _ member => Or.inl member⟩
  unfold ObjState.ingest
  by_cases late : nowMs > state.expiresAtMs
  · rw [if_pos late]
    exact Or.inl ⟨late, rfl, rfl⟩
  rw [if_neg late, if_neg (by rw [pending]; exact Bool.false_ne_true)]
  by_cases other : state.scheme ≠ scheme
  · rw [if_pos other]
    exact Or.inr (Or.inr ⟨rfl, unchanged⟩)
  obtain ⟨bound, isShard⟩ := shard (not_not.mp other).symm
  obtain rfl := not_not.mp other
  have indices : state.k + state.coding.repairs ≤ 255 := valid.indices
  have seenIff : isSeen state.seenMask index = true ↔ index ∈ seen := by
    rw [isSeen, if_neg (by omega), collected.mask index (by omega)]
  rw [if_neg other]
  by_cases known : index ∈ seen
  · rw [if_pos (seenIff.mpr known)]
    exact Or.inr (Or.inr ⟨rfl, unchanged⟩)
  rw [if_neg (mt seenIff.mp known)]
  have stored := collected.store valid known isShard bound
  have storedPending : (state.store index data).done = false :=
    (store_fields state index data).2.2.2.2.1.trans pending
  have count : (seen ++ [index]).length = seen.length + 1 := by simp
  have total : (state.store index data).totalCount = seen.length + 1 := stored.total.trans count
  have sameK : (state.store index data).k = state.k := (alike_store state index data).k_eq
  dsimp only
  rw [total, sameK]
  by_cases last : seen.length + 1 < state.k
  · rw [if_pos last]
    refine Or.inr (Or.inr ⟨rfl, seen ++ [index], ⟨storedPending, by rw [sameK, count]; exact last,
      ?_⟩, by simp⟩)
    rw [(alike_store state index data).coding_eq]
    exact stored
  · rw [if_neg last]
    have full : (seen ++ [index]).length = state.coding.k := by
      rw [count]
      exact le_antisymm few (not_lt.mp last)
    exact Or.inr (Or.inl ⟨(complete_fields _).1, stored.complete valid full, known,
      le_antisymm few (not_lt.mp last)⟩)

/-! ### Whatever the bytes -/

theorem isShard_blank {k shardLen objectSize index : Nat} (some : 0 < k) (scheme : Scheme)
    {data : List Byte} (length : data.length = wireLen k shardLen objectSize index) :
    IsShard (List.replicate objectSize 0) k shardLen scheme index (blank data) where
  source := by
    intro _
    refine ⟨by rw [length_blank, length, length_replicate], fun j _ => ?_⟩
    simp [blank_eq_replicate]
  repair := by
    intro beyond
    refine ⟨?_, fun j _ => ?_⟩
    · rw [length_blank, length, wireLen, if_neg (by omega)]
    · simp [blank_eq_replicate]

def Pending (state : ObjState) (seen : List Nat) : Prop :=
  Collecting (List.replicate state.objectSize 0) state.erase seen

theorem Pending.ingest {state : ObjState} {seen : List Nat} (pending : Pending state seen)
    (shaped : state.Shaped size) {index : Nat} {scheme : Scheme} {data : List Byte} (nowMs : Nat)
    (bound : scheme = state.scheme → index < state.k + state.coding.repairs)
    (length : data.length = wireLen state.k state.shardLen state.objectSize index) :
    (state.expiresAtMs < nowMs ∧ (state.ingest index scheme data nowMs).1.done = true ∧
        (state.ingest index scheme data nowMs).2.1 = none) ∨
      ((state.ingest index scheme data nowMs).1.done = true ∧
        (state.ingest index scheme data nowMs).2.1.isSome ∧
        index ∉ seen ∧ seen.length + 1 = state.k) ∨
      ((state.ingest index scheme data nowMs).2.1 = none ∧
        ∃ seen', Pending (state.ingest index scheme data nowMs).1 seen' ∧
          ∀ other ∈ seen', other ∈ seen ∨ other = index) := by
  obtain ⟨same, returned⟩ := erase_ingest state index scheme data nowMs
  have done : (state.erase.ingest index scheme (blank data) nowMs).1.done =
      (state.ingest index scheme data nowMs).1.done := by rw [same]; rfl
  have valid : state.coding.Valid (replicate state.objectSize 0) :=
    shaped.valid length_replicate
  rcases Collecting.ingest pending valid nowMs
      fun equal => ⟨bound equal, isShard_blank valid.some scheme length⟩ with
    ⟨late, isDone, nothing⟩ | ⟨isDone, object, completes⟩ |
    ⟨nothing, seen', collecting, grown⟩
  · rw [nothing, Option.isSome_none] at returned
    exact Or.inl ⟨late, done.symm.trans isDone, Option.isNone_iff_eq_none.mp
      (Option.isSome_eq_false_iff.mp returned.symm)⟩
  · rw [object, Option.isSome_some] at returned
    exact Or.inr (Or.inl ⟨done.symm.trans isDone, returned.symm, completes⟩)
  · rw [nothing, Option.isSome_none] at returned
    refine Or.inr (Or.inr ⟨Option.isNone_iff_eq_none.mp
      (Option.isSome_eq_false_iff.mp returned.symm), seen', ?_, grown⟩)
    rw [same] at collecting
    rw [Pending, (alike_ingest state index scheme data nowMs).objectSize_eq]
    exact collecting

/-! ### Accepted symbols -/

namespace FecReassembler

variable {objectKey : Nat} {re : FecReassembler}

theorem accept_spec {symbol : Symbol} {incoming : Incoming}
    (accepted : re.accept objectKey symbol = some incoming) :
    (0 < symbol.objectSize ∧ symbol.objectSize ≤ maxObjectSize ∧ 0 < re.symbolSize) ∧
      parsePayloadId symbol.payloadId = some (incoming.symbolIndex, incoming.scheme) ∧
      incoming.symbolIndex < 255 ∧
      re.objectShape objectKey symbol.objectSize = some (incoming.k, incoming.symSize) ∧
      (0 < incoming.k ∧ incoming.k < 255) ∧
      expectedWireLen incoming.k incoming.symSize symbol.objectSize incoming.symbolIndex =
        some symbol.data.length ∧
      ¬ (incoming.scheme = .pq ∧ incoming.symbolIndex ≥ incoming.k + 2) := by
  unfold accept at accepted
  split at accepted
  · cases accepted
  rename_i sizes
  obtain ⟨⟨symbolIndex, scheme⟩, parsed, accepted⟩ := Option.bind_eq_some_iff.mp accepted
  dsimp only at accepted
  split at accepted
  · cases accepted
  rename_i inRange
  obtain ⟨⟨k, symSize⟩, shaped, accepted⟩ := Option.bind_eq_some_iff.mp accepted
  split at accepted
  · cases accepted
  rename_i room
  obtain ⟨expected, wire, accepted⟩ := Option.bind_eq_some_iff.mp accepted
  split at accepted
  · cases accepted
  rename_i length
  split at accepted
  · cases accepted
  rename_i row
  cases accepted
  exact ⟨by omega, parsed, not_le.mp inRange, shaped,
    ⟨Nat.pos_of_ne_zero (not_or.mp room).1, not_le.mp (not_or.mp room).2⟩,
    by rw [wire, not_not.mp length], row⟩

def start (re : FecReassembler) (objectKey : Nat) (incoming : Incoming)
    (objectSize nowMs deadlineMs : Nat) : ObjState :=
  (re.objects.lookup objectKey).getD (fresh incoming objectSize nowMs deadlineMs)

theorem accepted_fits {symbol : Symbol} {incoming : Incoming}
    (accepted : re.accept objectKey symbol = some incoming)
    (shaped : ∀ state, re.objects.lookup objectKey = some state → ∃ size, state.Shaped size)
    (nowMs deadlineMs : Nat) :
    let state := re.start objectKey incoming symbol.objectSize nowMs deadlineMs
    ∃ size, state.Shaped size ∧ state.objectSize = symbol.objectSize ∧
      (re.objects.lookup objectKey = none → size = re.symbolSize) ∧
      (incoming.scheme = state.scheme →
        incoming.symbolIndex < state.k + state.coding.repairs) ∧
      symbol.data.length =
        wireLen state.k state.shardLen symbol.objectSize incoming.symbolIndex := by
  obtain ⟨⟨nonempty, _, configured⟩, _, inRange, shapeEq, ⟨some, room⟩, wire, row⟩ :=
    accept_spec accepted
  have within : ∀ state : ObjState, state.k = incoming.k → incoming.scheme = state.scheme →
      incoming.symbolIndex < state.k + state.coding.repairs := by
    intro state kEq schemeEq
    rw [ObjState.coding, kEq, ← schemeEq]
    cases isScheme : incoming.scheme with
    | cauchy =>
      simp only [Scheme.repairLimit]
      omega
    | pq =>
      have below : ¬ incoming.symbolIndex ≥ incoming.k + 2 := fun beyond => row ⟨isScheme, beyond⟩
      simp only [Scheme.repairLimit]
      omega
  unfold start
  cases known : re.objects.lookup objectKey with
  | some state =>
    obtain ⟨size, stateShaped⟩ := shaped state known
    rw [objectShape, known] at shapeEq
    dsimp only at shapeEq
    split at shapeEq
    · cases shapeEq
    rename_i sameSize
    obtain ⟨kEq, lenEq⟩ := Prod.mk.inj (Option.some.inj shapeEq)
    refine ⟨size, stateShaped, not_not.mp sameSize, fun none => (by cases none),
      within state kEq, ?_⟩
    have fits := stateShaped.shardLen_eq
    have covers := (shard_shape stateShaped.nonempty stateShaped.positive).1
    rw [← stateShaped.k_eq, ← fits, not_not.mp sameSize] at covers
    rw [not_not.mp sameSize, Transport.shardLen] at fits
    rw [Option.getD_some, wireLen]
    rw [expectedWireLen, ← kEq, ← lenEq] at wire
    split at wire
    · rename_i last
      rw [if_pos covers.le] at wire
      rw [if_pos last]
      exact (Option.some.inj wire).symm
    · rename_i notLast
      rw [if_neg notLast, ← Option.some.inj wire, min_eq_right (by omega)]
  | none =>
    rw [objectShape, known] at shapeEq
    obtain ⟨kEq, lenEq⟩ := Prod.mk.inj (Option.some.inj shapeEq)
    refine ⟨re.symbolSize, ⟨configured, nonempty, kEq.symm, room, by rw [lenEq]; rfl⟩, rfl,
      fun _ => rfl, within (fresh incoming symbol.objectSize nowMs deadlineMs) rfl, ?_⟩
    have covers := (shape symbol.objectSize re.symbolSize nonempty configured).2.1
    have prior : (incoming.k - 1) * min symbol.objectSize incoming.symSize =
        (incoming.k - 1) * incoming.symSize := by
      by_cases one : incoming.k = 1
      · rw [one, Nat.sub_self, Nat.zero_mul, Nat.zero_mul]
      · have several := shardLen_of_several nonempty configured (by rw [kEq]; exact one)
        rw [Transport.shardLen, lenEq] at several
        rw [several]
    rw [kEq, lenEq] at covers
    change symbol.data.length = wireLen incoming.k (min symbol.objectSize incoming.symSize)
      symbol.objectSize incoming.symbolIndex
    rw [wireLen, prior]
    rw [expectedWireLen] at wire
    split at wire
    · rename_i last
      rw [if_pos covers.le] at wire
      rw [if_pos last]
      exact (Option.some.inj wire).symm
    · rename_i notLast
      rw [if_neg notLast]
      exact (Option.some.inj wire).symm

/-! ### Dropped objects -/

/-- An object other than the one that arrives is dropped, and counted if unfinished; or none is. -/
inductive Drop (objectKey : Nat) (re after : FecReassembler) : Prop where
  | reorder (objects : after.objects = re.objects)
      (count : after.unrecoverableCount = re.unrecoverableCount)
  | drop (key : Nat) (state : ObjState) (other : key ≠ objectKey)
      (holds : re.objects.lookup key = some state) (objects : after.objects = re.objects.erase key)
      (count : after.unrecoverableCount =
        if state.done then re.unrecoverableCount else bump re.unrecoverableCount)

abbrev Drops (objectKey : Nat) : FecReassembler → FecReassembler → Prop :=
  Relation.ReflTransGen (Drop objectKey)

theorem sweepFrom_drops (objectKey nowMs : Nat) (re : FecReassembler) (queue : List Nat) :
    Drops objectKey re (re.sweepFrom objectKey nowMs queue) := by
  induction queue generalizing re with
  | nil => exact .single (.reorder rfl rfl)
  | cons oldest rest ih =>
    unfold sweepFrom
    split
    · exact .single (.reorder rfl rfl)
    · rename_i other
      split
      · rename_i state holds
        split
        · exact .head (.drop oldest state other holds rfl rfl) (ih _)
        · exact .single (.reorder rfl rfl)
      · exact ih re

theorem evict_drops (absent : re.objects.lookup objectKey = none) :
    Drops objectKey re re.evict := by
  unfold evict
  split
  · exact .refl
  · rename_i oldest rest queue
    split
    · rename_i state holds
      refine .single (.drop oldest state ?_ holds rfl rfl)
      rintro rfl
      rw [absent] at holds
      cases holds
    · exact .single (.reorder rfl rfl)

theorem Drop.lookup {after : FecReassembler} (drop : Drop objectKey re after) :
    after.objects.lookup objectKey = re.objects.lookup objectKey ∧
      ∀ key state, after.objects.lookup key = some state → re.objects.lookup key = some state := by
  cases drop with
  | reorder objects => rw [objects]; exact ⟨rfl, fun _ _ holds => holds⟩
  | drop key state other holds objects =>
    rw [objects]
    refine ⟨AList.lookup_erase_ne (Ne.symm other), fun found state holds => ?_⟩
    by_cases same : found = key
    · rw [same, AList.lookup_erase] at holds
      cases holds
    · rwa [AList.lookup_erase_ne same] at holds

theorem Drops.lookup {after : FecReassembler} (drops : Drops objectKey re after) :
    after.objects.lookup objectKey = re.objects.lookup objectKey ∧
      ∀ key state, after.objects.lookup key = some state → re.objects.lookup key = some state := by
  induction drops with
  | refl => exact ⟨rfl, fun _ _ holds => holds⟩
  | tail _ drop ih =>
    obtain ⟨own, others⟩ := drop.lookup
    exact ⟨own.trans ih.1,
      fun key state holds => ih.2 key state (others key state holds)⟩

theorem enter_drops (re : FecReassembler) (objectKey : Nat) (incoming : Incoming)
    (objectSize nowMs deadlineMs : Nat) :
    ∃ dropped, Drops objectKey re dropped ∧
      (re.enter objectKey incoming objectSize nowMs deadlineMs).unrecoverableCount =
        dropped.unrecoverableCount ∧
      ∀ key ≠ objectKey, (re.enter objectKey incoming objectSize nowMs deadlineMs).objects.lookup
        key = dropped.objects.lookup key := by
  unfold enter
  cases known : re.objects.lookup objectKey with
  | some state => exact ⟨re, .refl, rfl, fun _ _ => rfl⟩
  | none =>
    dsimp only
    split
    · exact ⟨re.evict, evict_drops known, rfl, fun key other => AList.lookup_insert_ne other⟩
    · exact ⟨re, .refl, rfl, fun key other => AList.lookup_insert_ne other⟩

theorem push_cases (re : FecReassembler) (objectKey : Nat) (symbol : Symbol)
    (nowMs deadlineMs : Nat) :
    (re.accept objectKey symbol = none ∧ re.push objectKey symbol nowMs deadlineMs = (re, none)) ∨
      ∃ incoming dropped, re.accept objectKey symbol = some incoming ∧ Drops objectKey re dropped ∧
        (re.push objectKey symbol nowMs deadlineMs).1.unrecoverableCount =
          dropped.unrecoverableCount ∧
        (re.push objectKey symbol nowMs deadlineMs).1.objects.lookup objectKey =
          some ((re.start objectKey incoming symbol.objectSize nowMs deadlineMs).ingest
            incoming.symbolIndex incoming.scheme symbol.data nowMs).1 ∧
        (∀ key ≠ objectKey, (re.push objectKey symbol nowMs deadlineMs).1.objects.lookup key =
          dropped.objects.lookup key) ∧
        (re.push objectKey symbol nowMs deadlineMs).2 =
          ((re.start objectKey incoming symbol.objectSize nowMs deadlineMs).ingest
            incoming.symbolIndex incoming.scheme symbol.data nowMs).2.1 := by
  cases accepted : re.accept objectKey symbol with
  | none =>
    refine Or.inl ⟨rfl, ?_⟩
    rw [push, accepted]
  | some incoming =>
    obtain ⟨own, _, output⟩ := push_object re objectKey symbol incoming accepted nowMs deadlineMs _
      rfl
    obtain ⟨dropped, drops, count, others⟩ := enter_drops (re.sweep objectKey nowMs) objectKey
      incoming symbol.objectSize nowMs deadlineMs
    obtain ⟨entered, _⟩ := enter_object (re.sweep objectKey nowMs) objectKey incoming
      symbol.objectSize nowMs deadlineMs
    refine Or.inr ⟨incoming, dropped, rfl, (sweepFrom_drops ..).trans drops, ?_, own, ?_, output⟩
    · rw [← count, push, accepted]
      simp only [entered]
    · intro key other
      rw [← others key other, push, accepted]
      simp only [entered]
      exact AList.lookup_insert_ne other

/-! ### Runs -/

inductive Event where
  | push (objectKey : Nat) (symbol : Symbol) (nowMs deadlineMs : Nat)
  | setSymbolSize (size : Nat)

def step (re : FecReassembler) : Event → FecReassembler
  | .push objectKey symbol nowMs deadlineMs => (re.push objectKey symbol nowMs deadlineMs).1
  | .setSymbolSize size => re.setSymbolSize size

end FecReassembler

theorem collecting_fresh (nowMs deadlineMs : Nat) (some : 0 < incoming.k) :
    Collecting ciphertext
      (FecReassembler.fresh incoming ciphertext.length nowMs deadlineMs) [] :=
  ⟨rfl, some, collected_fresh incoming.symSize nowMs deadlineMs rfl incoming.symbolIndex⟩

theorem pending_fresh (objectSize nowMs deadlineMs : Nat) (some : 0 < incoming.k) :
    Pending (FecReassembler.fresh incoming objectSize nowMs deadlineMs) [] := by
  have erased : (FecReassembler.fresh incoming objectSize nowMs deadlineMs).erase =
      FecReassembler.fresh incoming (replicate objectSize (0 : Byte)).length nowMs
        deadlineMs := by
    simp only [ObjState.erase, FecReassembler.fresh, blank_eq_replicate, length_replicate,
      map_nil]
  rw [Pending, erased]
  exact collecting_fresh incoming nowMs deadlineMs some

end Yip.Transport
