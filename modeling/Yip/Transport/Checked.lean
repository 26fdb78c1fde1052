/-
This file follows the panics of the reassembler: the functions of `rs.rs` and of the object
states of `fec.rs` once more, with `none` for an index or a slice out of bounds, an `assert` and
an `expect`.
-/

import Yip.Transport.Objects

namespace Yip.Transport.Checked

open ArrayList Rs Gf256 List Option

/-! ### Slices and field operations -/

def sliceOf (values : List Byte) (start length : Nat) : Option (List Byte) :=
  if start + length ≤ values.length then some (slice values start length) else none

def copyFromSlice (values : List Byte) (start length : Nat) (data : List Byte) :
    Option (List Byte) :=
  if start + length ≤ values.length ∧ data.length = length then some (copyInto values start data)
  else none

def inv (a : Byte) : Option Byte := if a = 0 then none else some (Gf256.inv a)

def cauchyCoef (k m i : Nat) : Option Byte :=
  if k + m < 256 ∧ i < 256 then inv (add (Byte.ofNat (k + m)) (Byte.ofNat i)) else none

def repairRow (scheme : Scheme) (k m : Nat) : Option (List Byte) :=
  match scheme with
  | .cauchy => (List.range k).mapM (cauchyCoef k m)
  | .pq => some (Rs.repairRow .pq k m)

def mulAddRow (coeff : Byte) (src dst : List Byte) : Option (List Byte) :=
  if src.length = dst.length then some (Rs.mulAddRow coeff src dst) else none

/-! ### Reconstruction -/

def isSet (seenMask : List (BitVec 64)) (u : Nat) : Option Bool :=
  seenMask[u / 64]?.map fun word => (word &&& 1#64 <<< (u % 64)) != 0

def sourceRows (seenMask : List (BitVec 64)) : Nat → Option (List (Nat × ShardRef))
  | 0 => some []
  | idx + 1 =>
    (sourceRows seenMask idx).bind fun rows =>
      (isSet seenMask idx).map fun present =>
        if present then rows ++ [(idx, .source idx)] else rows

def generatorRow (scheme : Scheme) (k idx : Nat) : Option (Option (List Byte)) :=
  if idx < k then some (some ((List.replicate k 0).set idx 1))
  else if scheme = .pq ∧ 2 ≤ idx - k then some none
  else
    (repairRow scheme k (idx - k)).bind fun coefs =>
      if coefs.length = k then some (some coefs) else none

def generator (scheme : Scheme) (k : Nat) :
    List (Nat × ShardRef) → Nat → Option (Option (List (List Byte)))
  | [], _ => some (some [])
  | _ :: _, 0 => none
  | row :: rest, room + 1 =>
    (generatorRow scheme k row.1).bind fun
      | none => some none
      | some coefs => (generator scheme k rest room).map fun tail => tail.map (coefs :: ·)

def invertColumn {k : Nat} (blocks : GaussJordan.Blocks Byte k) (col : Fin k) :
    Option (Option (GaussJordan.Blocks Byte k)) :=
  match GaussJordan.findPivot blocks.left col with
  | none => some none
  | some pivot =>
    let left := GaussJordan.swapRows blocks.left col pivot
    let right := GaussJordan.swapRows blocks.right col pivot
    (inv (GaussJordan.entry left col col)).map fun factor =>
      let left := GaussJordan.scaleRow left col factor
      let right := GaussJordan.scaleRow right col factor
      some ⟨GaussJordan.eliminate left left col, GaussJordan.eliminate left right col⟩

def invertColumns {k : Nat} (rows : GaussJordan.Rows Byte k) :
    Nat → Option (Option (GaussJordan.Blocks Byte k))
  | 0 => some (some ⟨rows, GaussJordan.identity⟩)
  | count + 1 =>
    (invertColumns rows count).bind fun
      | none => some none
      | some blocks =>
        if bound : count < k then invertColumn blocks ⟨count, bound⟩ else some (some blocks)

def invert {k : Nat} (rows : GaussJordan.Rows Byte k) :
    Option (Option (GaussJordan.Rows Byte k)) :=
  (invertColumns rows k).map fun blocks => blocks.map GaussJordan.Blocks.right

def shardBytes (payload : List Byte) (shardLen : Nat) : ShardRef → Option (List Byte)
  | .source idx => sliceOf payload (idx * shardLen) shardLen
  | .repair bytes => some bytes

def combine (payload : List Byte) (shardLen : Nat) (coefs : List Byte)
    (rows : List (Nat × ShardRef)) : Option (List Byte) :=
  rows.zipIdx.foldlM (fun scratch row =>
    coefs[row.2]?.bind fun coef =>
      if coef = 0 then some scratch
      else (shardBytes payload shardLen row.1.2).bind fun bytes => mulAddRow coef bytes scratch)
    (List.replicate shardLen 0)

def restore {k : Nat} (shardLen : Nat) (seenMask : List (BitVec 64))
    (rows : List (Nat × ShardRef)) (inverse : GaussJordan.Rows Byte k) (payload : List Byte) :
    Nat → Option (List Byte)
  | 0 => some payload
  | i + 1 =>
    (restore shardLen seenMask rows inverse payload i).bind fun current =>
      if bound : i < k then
        (isSet seenMask i).bind fun present =>
          if present then some current
          else
            (combine current shardLen inverse[i].toList rows).bind fun scratch =>
              copyFromSlice current (i * shardLen) shardLen scratch
      else some current

def reconstructMissingSources (k shardLen : Nat) (payload : List Byte)
    (seenMask : List (BitVec 64)) (repairShards : List (Nat × List Byte)) (scheme : Scheme) :
    Option (Option (List Byte)) :=
  if payload.length < k * shardLen then some none
  else
    (sourceRows seenMask k).bind fun sources =>
      let rows := fillRows k shardLen sources repairShards
      if rows.length < k then some none
      else
        (generator scheme k rows k).bind fun
          | none => some none
          | some m =>
            let m : GaussJordan.Rows Byte k := Vector.ofFn fun row => Vector.ofFn fun i =>
              (m.getD row []).getD i 0
            (invert m).bind fun
              | none => some none
              | some inverse => (restore shardLen seenMask rows inverse payload k).map some

/-! ### Object states -/

def isSeen (seenMask : List (BitVec 64)) (idx : Nat) : Option Bool :=
  if idx ≥ 256 then some false else isSet seenMask idx

def markSeen (seenMask : List (BitVec 64)) (idx : Nat) : Option (List (BitVec 64)) :=
  if idx < 256 then
    seenMask[idx / 64]?.map fun word => seenMask.set (idx / 64) (word ||| 1#64 <<< (idx % 64))
  else some seenMask

def store (state : ObjState) (symbolIndex : Nat) (data : List Byte) : Option ObjState :=
  (markSeen state.seenMask symbolIndex).bind fun seenMask =>
    let state := { state with seenMask := seenMask, totalCount := state.totalCount + 1 }
    if symbolIndex < state.k then
      let copyLen := min data.length state.shardLen
      (sliceOf data 0 copyLen).bind fun source =>
        (copyFromSlice state.payload (symbolIndex * state.shardLen) copyLen source).map
          fun payload => { state with sourceCount := state.sourceCount + 1, payload := payload }
    else
      some { state with
        repairShards := state.repairShards ++
          [(symbolIndex, data ++ List.replicate (state.shardLen - data.length) 0)] }

def complete (state : ObjState) : Option (ObjState × Option (List Byte) × Bool) :=
  let state := { state with done := true }
  if state.sourceCount = state.k then
    some (state.release, some (state.payload.take state.objectSize), false)
  else
    (reconstructMissingSources state.k state.shardLen state.payload state.seenMask
        state.repairShards state.scheme).map fun
      | none => (state, none, true)
      | some payload => (state.release, some (payload.take state.objectSize), true)

/-- `ObjState.ingest` with every index checked; `none` stands for a panic. -/
def ingest (state : ObjState) (symbolIndex : Nat) (scheme : Scheme) (data : List Byte)
    (nowMs : Nat) : Option (ObjState × Option (List Byte) × Bool) :=
  if nowMs > state.expiresAtMs then some (state.expire, none, false)
  else if state.done then some (state, none, false)
  else if state.scheme ≠ scheme then some (state, none, false)
  else
    (isSeen state.seenMask symbolIndex).bind fun seen =>
      if seen then some (state, none, false)
      else
        (store state symbolIndex data).bind fun state =>
          if state.totalCount < state.k then some (state, none, false) else complete state

/-! ### Reconstruction does not panic -/

section Reconstruct

variable {k shardLen : Nat} {payload : List Byte} {seenMask : List (BitVec 64)}
  {repairShards : List (Nat × List Byte)} {scheme : Scheme}

/-- The lengths and indices under which reconstruction stays within its buffers. -/
structure Fits (k shardLen : Nat) (payload : List Byte) (seenMask : List (BitVec 64))
    (repairShards : List (Nat × List Byte)) (scheme : Scheme) : Prop where
  room : k < 255
  payloadLength : payload.length = k * shardLen
  maskLength : seenMask.length = 4
  repairLength : ∀ shard ∈ repairShards, shard.2.length = shardLen
  repairIndex : ∀ shard ∈ repairShards,
    k ≤ shard.1 ∧ shard.1 < 255 ∧ (scheme = .pq → shard.1 < k + 2)

theorem isSet_eq (length : seenMask.length = 4) {u : Nat} (bound : u < 256) :
    isSet seenMask u = some (Rs.isSet seenMask u) := by
  have inside : u / 64 < seenMask.length := by omega
  rw [isSet, Rs.isSet, getElem?_eq_getElem inside, getD_eq_getElem _ _ inside]
  rfl

theorem sourceRows_eq (length : seenMask.length = 4) {count : Nat} (bound : count ≤ 256) :
    sourceRows seenMask count =
      some ((presentSources count seenMask).map fun idx => (idx, .source idx)) := by
  induction count with
  | zero => rfl
  | succ idx ih =>
    rw [sourceRows, ih (by omega), bind_some, isSet_eq length (by omega),
      map_some, presentSources, presentSources, range_succ, filter_append]
    cases present : Rs.isSet seenMask idx <;> simp [present]

theorem cauchyCoef_eq {m i : Nat} (bound : k + m < 256) (column : i < k) :
    cauchyCoef k m i = some (Rs.cauchyCoef k m i) := by
  have different : add (Byte.ofNat (k + m)) (Byte.ofNat i) ≠ 0 := by
    rw [add_eq]
    intro zero
    have same := ofNat_injOn bound (by omega) (sub_eq_zero.mp zero)
    omega
  rw [cauchyCoef, if_pos ⟨bound, by omega⟩, inv, if_neg different]
  rfl

theorem mapM_eq_some {α β : Type} {f : α → Option β} {g : α → β} (values : List α)
    (each : ∀ value ∈ values, f value = some (g value)) : values.mapM f = some (values.map g) := by
  induction values with
  | nil => rfl
  | cons value rest ih =>
    rw [mapM_cons, each value mem_cons_self,
      ih fun other member => each other (mem_cons_of_mem _ member)]
    rfl

theorem repairRow_eq {m : Nat} (bound : k + m < 256) :
    repairRow scheme k m = some (Rs.repairRow scheme k m) := by
  cases scheme with
  | cauchy =>
    exact mapM_eq_some _ fun i member => cauchyCoef_eq bound (mem_range.mp member)
  | pq => rfl

theorem length_powersOfTwo (count : Nat) (p : Byte) : (powersOfTwo count p).length = count := by
  induction count generalizing p with
  | zero => rfl
  | succ count ih =>
    rw [powersOfTwo, length_cons, ih]

theorem length_repairRow (m : Nat) : (Rs.repairRow scheme k m).length = k := by
  unfold Rs.repairRow
  split
  · rw [length_map, length_range]
  · split
    · exact length_replicate
    · exact length_powersOfTwo _ _
    · exact length_replicate

def Valid (scheme : Scheme) (k idx : Nat) : Prop :=
  idx < 255 ∧ (scheme = .pq → idx < k + 2)

theorem generatorRow_spec {idx : Nat} (valid : Valid scheme k idx) :
    ∃ coefs, generatorRow scheme k idx = some (some coefs) ∧
      ∀ i < k, coefs.getD i 0 = generatorEntry scheme k idx i := by
  rw [generatorRow]
  by_cases source : idx < k
  · refine ⟨_, if_pos source, fun i bound => ?_⟩
    rw [getD_set _ _ _ _ _ (by rw [length_replicate]; exact source), generatorEntry,
      if_pos source]
    split
    · rfl
    · rw [getD_eq_getElem?_getD, getElem?_replicate, if_pos bound, getD_some]
  · have row : ¬ (scheme = .pq ∧ 2 ≤ idx - k) := by
      rintro ⟨isPq, beyond⟩
      have limit := valid.2 isPq
      omega
    refine ⟨Rs.repairRow scheme k (idx - k), ?_, fun i _ => by rw [generatorEntry, if_neg source]⟩
    have small := valid.1
    rw [if_neg source, if_neg row, repairRow_eq (by omega), bind_some,
      if_pos (length_repairRow _)]

theorem generator_spec (rows : List (Nat × ShardRef)) (room : Nat) (fits : rows.length ≤ room)
    (valid : ∀ row ∈ rows, Valid scheme k row.1) :
    ∃ m, generator scheme k rows room = some (some m) ∧ ∀ row < rows.length, ∀ i < k,
      (m.getD row []).getD i 0 =
        generatorEntry scheme k (rows.getD row (0, .repair [])).1 i := by
  induction rows generalizing room with
  | nil =>
    cases room <;> exact ⟨[], rfl, fun row bound => absurd bound (Nat.not_lt_zero _)⟩
  | cons head rest ih =>
    cases room with
    | zero => exact absurd fits (Nat.not_succ_le_zero _)
    | succ room =>
      obtain ⟨coefs, first, entries⟩ := generatorRow_spec (valid head mem_cons_self)
      obtain ⟨tail, others, entries'⟩ := ih room (Nat.le_of_succ_le_succ fits)
        fun row member => valid row (mem_cons_of_mem _ member)
      refine ⟨coefs :: tail, ?_, fun row bound i column => ?_⟩
      · rw [generator, first, bind_some]
        simp only [others, map_some]
      · cases row with
        | zero => exact entries i column
        | succ row => exact entries' row (Nat.lt_of_succ_lt_succ bound) i column

theorem invertColumn_eq (blocks : GaussJordan.Blocks Byte k) (col : Fin k) :
    invertColumn blocks col = some (GaussJordan.step blocks col) := by
  rw [invertColumn, GaussJordan.step]
  cases found : GaussJordan.findPivot blocks.left col with
  | none => rfl
  | some pivot =>
    have nonzero : GaussJordan.entry (GaussJordan.swapRows blocks.left col pivot) col col ≠ 0 := by
      rw [GaussJordan.entry_swapRows, Equiv.swap_apply_left]
      exact (GaussJordan.findPivot_spec found).2
    simp only [inv, if_neg nonzero, map_some]
    rfl

theorem invert_eq (rows : GaussJordan.Rows Byte k) :
    invert rows = some (GaussJordan.invert rows) := by
  have columns : ∀ count, invertColumns rows count = some (GaussJordan.columns rows count) := by
    intro count
    induction count with
    | zero => rfl
    | succ count ih =>
      rw [invertColumns, GaussJordan.columns, ih, bind_some]
      cases GaussJordan.columns rows count with
      | none => rfl
      | some blocks =>
        simp only [bind_some, invertColumn_eq]
        split <;> rfl
  rw [invert, columns]
  rfl

/-- The inverse is found exactly if there is one, and no step of the elimination panics. -/
theorem invert_inverts_iff_nonsingular (n : Nat) (rows : GaussJordan.Rows Byte n) :
    ((∃ inverse, invert rows = some (some inverse) ∧
        GaussJordan.matrix rows * GaussJordan.matrix inverse = 1) ↔
      (GaussJordan.matrix rows).det ≠ 0) ∧
    (invert rows = some none ↔ (GaussJordan.matrix rows).det = 0) := by
  have found := GaussJordan.invert_isSome_iff_det rows
  rw [invert_eq]
  cases inverted : GaussJordan.invert rows with
  | none =>
    rw [inverted] at found
    have singular : (GaussJordan.matrix rows).det = 0 := not_not.mp (mt found.mpr nofun)
    simp [singular]
  | some inverse =>
    rw [inverted] at found
    have regular := found.mp rfl
    simpa [regular] using GaussJordan.mul_of_invert inverted

def InBounds (payload : List Byte) (shardLen : Nat) (ref : ShardRef) : Prop :=
  shardBytes payload shardLen ref = some (Rs.shardBytes payload shardLen ref) ∧
    (Rs.shardBytes payload shardLen ref).length = shardLen

variable {rows : List (Nat × ShardRef)}

theorem getD_mem_rows (count : rows.length = k) (row : Fin k) :
    rows.getD row (0, .repair []) ∈ rows := by
  rw [getD_eq_getElem _ _ (by rw [count]; exact row.isLt)]
  exact getElem_mem _

theorem zipIdx_eq_map_finRange (rows : List (Nat × ShardRef)) (count : rows.length = k) :
    rows.zipIdx = (List.finRange k).map fun row : Fin k =>
      (rows.getD row (0, .repair []), (row : Nat)) := by
  refine ext_getElem (by simp [count]) fun i first second => ?_
  have bound : i < rows.length := by simpa using first
  simp [getElem?_eq_getElem bound]

theorem combine_eq (inverse : GaussJordan.Rows Byte k) (i : Fin k) (count : rows.length = k)
    (inBounds : ∀ row ∈ rows, InBounds payload shardLen row.2) :
    combine payload shardLen inverse[i].toList rows =
      some (accumulate shardLen (GaussJordan.entry inverse i) fun row : Fin k =>
        Rs.shardBytes payload shardLen (rows.getD row (0, .repair [])).2) := by
  have general : ∀ (order : List (Fin k)) (scratch : List Byte), scratch.length = shardLen →
      (order.map fun row : Fin k => (rows.getD row (0, .repair []), (row : Nat))).foldlM
        (fun scratch row => inverse[i].toList[row.2]?.bind fun coef =>
          if coef = 0 then some scratch
          else (shardBytes payload shardLen row.1.2).bind fun bytes =>
            mulAddRow coef bytes scratch) scratch =
        some (order.foldl (fun acc row => Rs.mulAddRow (GaussJordan.entry inverse i row)
          (Rs.shardBytes payload shardLen (rows.getD row (0, .repair [])).2) acc) scratch) := by
    intro order
    induction order with
    | nil => intro scratch _; rfl
    | cons row rest ih =>
      intro scratch length
      obtain ⟨bytes, shard⟩ := inBounds _ (getD_mem_rows count row)
      have coef : inverse[i].toList[(row : Nat)]? = some (GaussJordan.entry inverse i row) := by
        simp [GaussJordan.entry]
      have same : (Rs.shardBytes payload shardLen (rows.getD row (0, .repair [])).2).length =
          scratch.length := shard.trans length.symm
      rw [map_cons, foldlM_cons, foldl_cons]
      simp only [coef, bind_some, bytes]
      have step : (if GaussJordan.entry inverse i row = 0 then some scratch
          else mulAddRow (GaussJordan.entry inverse i row)
            (Rs.shardBytes payload shardLen (rows.getD row (0, .repair [])).2) scratch) =
          some (Rs.mulAddRow (GaussJordan.entry inverse i row)
            (Rs.shardBytes payload shardLen (rows.getD row (0, .repair [])).2) scratch) := by
        split
        · rename_i zero
          rw [zero, Rs.mulAddRow, if_pos rfl]
        · rw [mulAddRow, if_pos same]
      rw [step]
      exact ih _ ((length_mulAddRow _ _ _ same).trans length)
  rw [combine, zipIdx_eq_map_finRange rows count]
  exact general _ _ length_replicate

theorem restore_eq {inverse : GaussJordan.Rows Byte k} (room : k < 255)
    (length : payload.length = k * shardLen) (mask : seenMask.length = 4)
    (rowCount : rows.length = k)
    (inBounds : ∀ current : List Byte, current.length = k * shardLen →
      ∀ row ∈ rows, InBounds current shardLen row.2) (count : Nat) :
    restore shardLen seenMask rows inverse payload count =
        some (Rs.restore shardLen seenMask rows inverse payload count) ∧
      (Rs.restore shardLen seenMask rows inverse payload count).length = k * shardLen := by
  induction count with
  | zero => exact ⟨rfl, length⟩
  | succ i ih =>
    obtain ⟨before, same⟩ := ih
    rw [restore, Rs.restore, before, bind_some]
    generalize Rs.restore shardLen seenMask rows inverse payload i = current at same ⊢
    by_cases bound : i < k
    · have block := block_le shardLen bound
      have combined := combine_eq inverse ⟨i, bound⟩ rowCount (inBounds current same)
      have scratch := (accumulate_spec shardLen (GaussJordan.entry inverse ⟨i, bound⟩)
        (fun row : Fin k => Rs.shardBytes current shardLen (rows.getD row (0, .repair [])).2)
        fun row => (inBounds current same _ (getD_mem_rows rowCount row)).2).1
      rw [dif_pos bound, dif_pos bound, isSet_eq mask (by omega), bind_some]
      split
      · exact ⟨rfl, same⟩
      · rw [show inverse[i] = inverse[(⟨i, bound⟩ : Fin k)] from rfl, combined, bind_some,
          copyFromSlice, if_pos ⟨by omega, scratch⟩]
        exact ⟨rfl, (length_copyInto _ _ _ (by omega)).trans same⟩
    · rw [dif_neg bound, dif_neg bound]
      exact ⟨rfl, same⟩

theorem mem_fillRows {row : Nat × ShardRef} (member : row ∈ fillRows k shardLen rows repairShards) :
    row ∈ rows ∨ ∃ shard ∈ repairShards, shard.2.length = shardLen ∧
      row = (shard.1, .repair shard.2) := by
  induction repairShards generalizing rows with
  | nil => exact .inl member
  | cons shard rest ih =>
    obtain ⟨idx, bytes⟩ := shard
    rw [fillRows] at member
    split at member
    · exact .inl member
    · split at member
      · rcases ih member with before | ⟨shard, later, facts⟩
        · exact .inl before
        · exact .inr ⟨shard, mem_cons_of_mem _ later, facts⟩
      · rename_i length
        rcases ih member with before | ⟨shard, later, facts⟩
        · rcases mem_append.mp before with before | here
          · exact .inl before
          · exact .inr ⟨(idx, bytes), mem_cons_self, not_not.mp length,
              mem_singleton.mp here⟩
        · exact .inr ⟨shard, mem_cons_of_mem _ later, facts⟩

theorem length_fillRows_le (fits : rows.length ≤ k) :
    (fillRows k shardLen rows repairShards).length ≤ k := by
  induction repairShards generalizing rows with
  | nil => exact fits
  | cons shard rest ih =>
    obtain ⟨idx, bytes⟩ := shard
    rw [fillRows]
    split
    · exact fits
    · rename_i full
      split
      · exact ih fits
      · exact ih (by rw [length_append, length_singleton]; omega)

theorem reconstructMissingSources_eq (fits : Fits k shardLen payload seenMask repairShards scheme) :
    reconstructMissingSources k shardLen payload seenMask repairShards scheme =
      some (Rs.reconstructMissingSources k shardLen payload seenMask repairShards scheme) := by
  have room := fits.room
  rw [reconstructMissingSources, Rs.reconstructMissingSources]
  by_cases short : payload.length < k * shardLen
  · rw [if_pos short, if_pos short]
  rw [if_neg short, if_neg short, sourceRows_eq fits.maskLength (by omega), bind_some]
  have selected : fillRows k shardLen ((presentSources k seenMask).map fun idx =>
      (idx, ShardRef.source idx)) repairShards = selectRows k shardLen seenMask repairShards := rfl
  simp only [selected]
  have upper : (selectRows k shardLen seenMask repairShards).length ≤ k :=
    length_fillRows_le (by rw [length_map]; exact length_presentSources_le k seenMask)
  have kinds : ∀ row ∈ selectRows k shardLen seenMask repairShards,
      (∃ idx < k, row = (idx, .source idx)) ∨
        ∃ shard ∈ repairShards, shard.2.length = shardLen ∧ row = (shard.1, .repair shard.2) := by
    intro row member
    rcases mem_fillRows member with source | repair
    · obtain ⟨idx, present, rfl⟩ := mem_map.mp source
      exact .inl ⟨idx, (mem_presentSources.mp present).1, rfl⟩
    · exact .inr repair
  generalize selectRows k shardLen seenMask repairShards = rows at upper kinds ⊢
  by_cases few : rows.length < k
  · simp only [if_pos few]
  have count : rows.length = k := by omega
  have valid : ∀ row ∈ rows, Valid scheme k row.1 := by
    intro row member
    rcases kinds row member with ⟨idx, bound, rfl⟩ | ⟨shard, stored, _, rfl⟩
    · exact ⟨by omega, fun _ => by omega⟩
    · exact (fits.repairIndex shard stored).2
  have inBounds : ∀ current : List Byte, current.length = k * shardLen → ∀ row ∈ rows,
      InBounds current shardLen row.2 := by
    intro current length row member
    rcases kinds row member with ⟨idx, bound, rfl⟩ | ⟨shard, _, shardLength, rfl⟩
    · have block := block_le shardLen bound
      exact ⟨if_pos (by omega), length_slice _ _ _ (by omega)⟩
    · exact ⟨rfl, shardLength⟩
  have accepted :
      (rows.any fun row => decide (k ≤ row.1 ∧ scheme = .pq ∧ 2 ≤ row.1 - k)) = false := by
    rw [List.any_eq_false]
    intro row member
    rw [decide_eq_true_iff]
    rintro ⟨low, isPq, beyond⟩
    have limit := (valid row member).2 isPq
    omega
  obtain ⟨m, built, entries⟩ := generator_spec rows k upper valid
  have matrix : (Vector.ofFn fun row : Fin k => Vector.ofFn fun i : Fin k =>
        (m.getD row []).getD i 0) =
      Vector.ofFn fun row : Fin k => Vector.ofFn fun i : Fin k =>
        generatorEntry scheme k (rows.getD row (0, .repair [])).1 i := by
    refine congrArg Vector.ofFn (funext fun row => congrArg Vector.ofFn (funext fun i => ?_))
    exact entries row (by rw [count]; exact row.isLt) i i.isLt
  simp only [if_neg few, built, bind_some, matrix, invert_eq, accepted]
  rw [if_neg Bool.false_ne_true]
  cases GaussJordan.invert (Vector.ofFn fun row : Fin k => Vector.ofFn fun i : Fin k =>
      generatorEntry scheme k (rows.getD row (0, .repair [])).1 i) with
  | none => rfl
  | some inverse =>
    simp only [map_some]
    rw [(restore_eq room fits.payloadLength fits.maskLength count inBounds k).1]
    rfl

end Reconstruct

/-! ### Object states do not panic -/

section Objects

variable {state : ObjState} {index : Nat} {data : List Byte}

def FitsState (state : ObjState) : Prop :=
  Fits state.k state.shardLen state.payload state.seenMask state.repairShards state.scheme

variable {seenMask : List (BitVec 64)}

theorem isSeen_eq (length : seenMask.length = 4) :
    isSeen seenMask index = some (Transport.isSeen seenMask index) := by
  rw [isSeen, Transport.isSeen]
  split
  · rfl
  · exact isSet_eq length (by omega)

theorem markSeen_eq (length : seenMask.length = 4) :
    markSeen seenMask index = some (Transport.markSeen seenMask index) := by
  rw [markSeen, Transport.markSeen]
  split
  · have inside : index / 64 < seenMask.length := by omega
    rw [getElem?_eq_getElem inside, getD_eq_getElem _ _ inside]
    rfl
  · rfl

theorem store_eq (fits : FitsState state) :
    store state index data = some (state.store index data) := by
  rw [store, markSeen_eq fits.maskLength, bind_some, ObjState.store]
  simp only
  by_cases source : index < state.k
  · have block := block_le state.shardLen source
    have payloadLength := fits.payloadLength
    have taken : sliceOf data 0 (min data.length state.shardLen) =
        some (data.take (min data.length state.shardLen)) := by
      rw [sliceOf, if_pos (by omega), slice, drop_zero]
    rw [if_pos source, if_pos source, taken, bind_some, copyFromSlice,
      if_pos ⟨by omega, by rw [length_take]; omega⟩]
    rfl
  · rw [if_neg source, if_neg source]

theorem FitsState.store (fits : FitsState state) (short : data.length ≤ state.shardLen)
    (valid : Valid state.scheme state.k index) : FitsState (state.store index data) := by
  obtain ⟨k, shardLen, _, scheme, _, _, mask, _⟩ := store_fields state index data
  have maskLength : (state.store index data).seenMask.length = 4 := by
    rw [mask, length_markSeen, fits.maskLength]
  by_cases source : index < state.k
  · obtain ⟨_, payload, repairShards⟩ := store_source state index data source
    have block := block_le state.shardLen source
    have payloadLength := fits.payloadLength
    rw [FitsState, k, shardLen, scheme, payload, repairShards]
    refine { fits with payloadLength := ?_, maskLength := maskLength }
    rw [length_copyInto _ _ _ (by rw [length_take]; omega), payloadLength]
  · obtain ⟨_, payload, repairShards⟩ := store_repair state index data source
    rw [FitsState, k, shardLen, scheme, payload, repairShards]
    refine { fits with maskLength := maskLength, repairLength := ?_, repairIndex := ?_ }
    · refine forall_mem_append.mpr ⟨fits.repairLength, forall_mem_singleton.mpr ?_⟩
      rw [length_append, length_replicate]
      omega
    · exact forall_mem_append.mpr
        ⟨fits.repairIndex, forall_mem_singleton.mpr ⟨not_lt.mp source, valid⟩⟩

theorem complete_eq (fits : FitsState state) : complete state = some state.complete := by
  rw [complete, ObjState.complete]
  simp only
  split
  · rfl
  · rw [reconstructMissingSources_eq fits]
    generalize Rs.reconstructMissingSources state.k state.shardLen state.payload state.seenMask
      state.repairShards state.scheme = restored
    cases restored <;> rfl

def Kept (state : ObjState) : Prop := state.done = true ∨ FitsState state

theorem Kept.ingest (kept : Kept state) {scheme : Scheme} (nowMs : Nat)
    (short : data.length ≤ state.shardLen)
    (valid : scheme = state.scheme → Valid state.scheme state.k index) :
    ingest state index scheme data nowMs = some (state.ingest index scheme data nowMs) ∧
      Kept (state.ingest index scheme data nowMs).1 := by
  rw [Checked.ingest, ObjState.ingest]
  by_cases late : nowMs > state.expiresAtMs
  · rw [if_pos late, if_pos late]
    exact ⟨rfl, .inl rfl⟩
  by_cases done : state.done = true
  · rw [if_neg late, if_neg late, if_pos done, if_pos done]
    exact ⟨rfl, .inl done⟩
  have fits := kept.resolve_left done
  by_cases other : state.scheme ≠ scheme
  · rw [if_neg late, if_neg late, if_neg done, if_neg done, if_pos other, if_pos other]
    exact ⟨rfl, kept⟩
  have valid := valid (not_not.mp other).symm
  rw [if_neg late, if_neg late, if_neg done, if_neg done, if_neg other, if_neg other,
    isSeen_eq fits.maskLength, bind_some]
  by_cases known : Transport.isSeen state.seenMask index = true
  · rw [if_pos known, if_pos known]
    exact ⟨rfl, kept⟩
  have stored := fits.store short valid
  rw [if_neg known, if_neg known, store_eq fits, bind_some]
  simp only
  split
  · exact ⟨rfl, .inr stored⟩
  · exact ⟨complete_eq stored, .inl (complete_fields _).1⟩

theorem kept_fresh {incoming : FecReassembler.Incoming} (room : incoming.k < 255)
    (objectSize nowMs deadlineMs : Nat) :
    Kept (FecReassembler.fresh incoming objectSize nowMs deadlineMs) := by
  refine .inr ⟨room, length_replicate, rfl, ?_, ?_⟩
  · intro shard member
    cases member
  · intro shard member
    cases member

end Objects

end Yip.Transport.Checked
