/-
This file models `rs.rs`, the systematic Reed-Solomon code of the transport: the repair rows of
its two schemes, the repair encoder, and the in-place reconstruction of the missing source
shards.
-/

import Yip.Lib.BitRing
import Yip.Lib.ErasureCode
import Yip.Transport.Gf256

namespace Yip.Transport.Rs

open Gf256 ArrayList List

/-- Cauchy coefficients, or the two rows P and Q. -/
inductive Scheme where
  | cauchy
  | pq
  deriving DecidableEq, Repr

namespace Scheme

def toU8 : Scheme → Byte
  | cauchy => Byte.ofNat 0
  | pq => Byte.ofNat 1

def fromU8 (v : Byte) : Option Scheme :=
  if v = Byte.ofNat 0 then some cauchy
  else if v = Byte.ofNat 1 then some pq
  else none

theorem fromU8_toU8 (scheme : Scheme) : fromU8 scheme.toU8 = some scheme := by
  cases scheme <;> decide

def repairLimit (scheme : Scheme) (k : Nat) : Nat :=
  match scheme with
  | cauchy => 255 - k
  | pq => 2

end Scheme

/-! ### Repair rows -/

def cauchyCoef (k m i : Nat) : Byte := inv (add (Byte.ofNat (k + m)) (Byte.ofNat i))

def powersOfTwo : Nat → Byte → List Byte
  | 0, _ => []
  | count + 1, p => p :: powersOfTwo count (mul p (Byte.ofNat 2))

/-- The coefficients of a repair shard. -/
def repairRow (scheme : Scheme) (k m : Nat) : List Byte :=
  match scheme with
  | .cauchy => (List.range k).map (cauchyCoef k m)
  | .pq =>
    match m with
    | 0 => List.replicate k 1
    | 1 => powersOfTwo k 1
    | _ => List.replicate k 0

def mulAddRow (coeff : Byte) (src dst : List Byte) : List Byte :=
  if coeff = 0 then dst
  else if coeff = 1 then List.zipWith Byte.xor dst src
  else mulSliceInto dst src coeff

def accumulate {k : Nat} (len : Nat) (coef : Fin k → Byte) (shard : Fin k → List Byte) :
    List Byte :=
  (List.finRange k).foldl (fun acc i => mulAddRow (coef i) (shard i) acc) (List.replicate len 0)

/-- The repair shards of the source shards. -/
def encodeRepair (source : List (List Byte)) (r : Nat) (scheme : Scheme) : List (List Byte) :=
  let len := (source.head?.map List.length).getD 0
  (List.range r).map fun m =>
    let coefs := repairRow scheme source.length m
    accumulate len (fun i : Fin source.length => coefs.getD i 0) source.get

/-! ### Reconstruction -/

inductive ShardRef where
  | source (index : Nat)
  | repair (bytes : List Byte)

def isSet (seenMask : List (BitVec 64)) (u : Nat) : Bool :=
  (seenMask.getD (u / 64) 0 &&& 1#64 <<< (u % 64)) != 0

def fillRows (k shardLen : Nat) :
    List (Nat × ShardRef) → List (Nat × List Byte) → List (Nat × ShardRef)
  | rows, [] => rows
  | rows, (idx, bytes) :: rest =>
    if rows.length = k then rows
    else if bytes.length ≠ shardLen then fillRows k shardLen rows rest
    else fillRows k shardLen (rows ++ [(idx, .repair bytes)]) rest

def presentSources (k : Nat) (seenMask : List (BitVec 64)) : List Nat :=
  (List.range k).filter (isSet seenMask)

def selectRows (k shardLen : Nat) (seenMask : List (BitVec 64))
    (repairShards : List (Nat × List Byte)) : List (Nat × ShardRef) :=
  fillRows k shardLen
    ((presentSources k seenMask).map fun idx => (idx, ShardRef.source idx))
    repairShards

def generatorEntry (scheme : Scheme) (k idx i : Nat) : Byte :=
  if idx < k then (if idx = i then 1 else 0) else (repairRow scheme k (idx - k)).getD i 0

def shardBytes (payload : List Byte) (shardLen : Nat) : ShardRef → List Byte
  | .source idx => slice payload (idx * shardLen) shardLen
  | .repair bytes => bytes

def restore {k : Nat} (shardLen : Nat) (seenMask : List (BitVec 64))
    (rows : List (Nat × ShardRef)) (inverse : GaussJordan.Rows Byte k) (payload : List Byte) :
    Nat → List Byte
  | 0 => payload
  | i + 1 =>
    let current := restore shardLen seenMask rows inverse payload i
    if bound : i < k then
      if isSet seenMask i then current
      else
        copyInto current (i * shardLen)
          (accumulate shardLen (GaussJordan.entry inverse ⟨i, bound⟩)
            fun row => shardBytes current shardLen (rows.getD row (0, .repair [])).2)
    else current

def reconstructMissingSources (k shardLen : Nat) (payload : List Byte)
    (seenMask : List (BitVec 64)) (repairShards : List (Nat × List Byte)) (scheme : Scheme) :
    Option (List Byte) :=
  if payload.length < k * shardLen then none
  else
    let rows := selectRows k shardLen seenMask repairShards
    if rows.length < k then none
    else if rows.any fun row => decide (k ≤ row.1 ∧ scheme = .pq ∧ 2 ≤ row.1 - k) then none
    else
      let m : GaussJordan.Rows Byte k := Vector.ofFn fun row => Vector.ofFn fun i =>
        generatorEntry scheme k (rows.getD row (0, .repair [])).1 i
      (GaussJordan.invert m).map fun inverse =>
        restore shardLen seenMask rows inverse payload k

/-! ### The rows of both schemes are MDS -/

theorem mul_two (p : Byte) : mul p (Byte.ofNat 2) = double p := by
  rw [mul_comm', show Byte.ofNat 2 = pow 1 by decide, mul_pow_left]
  rfl

theorem getD_powersOfTwo (count n i : Nat) (bound : i < count) :
    (powersOfTwo count (pow n)).getD i 0 = pow (n + i) := by
  induction count generalizing n i with
  | zero => omega
  | succ count ih =>
    cases i with
    | zero => rfl
    | succ i =>
      rw [powersOfTwo, getD_cons_succ, mul_two, ← pow_succ,
        ih (n + 1) i (by omega)]
      congr 1
      omega

theorem getD_repairRow_cauchy (k m : Nat) (i : Fin k) :
    (repairRow .cauchy k m).getD i 0 = (Byte.ofNat (k + m) - Byte.ofNat i)⁻¹ := by
  simp only [repairRow, getD_eq_getElem?_getD, getElem?_map,
    getElem?_range i.isLt, Option.map_some, Option.getD_some]
  rfl

theorem getD_repairRow_pq (k m : Nat) (i : Fin k) :
    (repairRow .pq k m).getD i 0 = ErasureCode.parityRow (fun i : Fin k => pow i) m i := by
  match m with
  | 0 => simp [repairRow, ErasureCode.parityRow]
  | 1 =>
    have read := getD_powersOfTwo k 0 i i.isLt
    rw [Nat.zero_add] at read
    exact read
  | m + 2 => simp [repairRow, ErasureCode.parityRow]

theorem ofNat_injOn {first second : Nat} (firstBound : first < 256) (secondBound : second < 256)
    (equal : Byte.ofNat first = Byte.ofNat second) : first = second := by
  have same := congrArg Byte.toNat equal
  rwa [Byte.toNat_ofNat, Byte.toNat_ofNat, Nat.mod_eq_of_lt firstBound,
    Nat.mod_eq_of_lt secondBound] at same

theorem repairRow_mds (scheme : Scheme) (k : Nat) (bound : k ≤ 255) :
    ErasureCode.Mds (fun m (i : Fin k) => (repairRow scheme k m).getD i 0)
      (scheme.repairLimit k) := by
  cases scheme with
  | cauchy =>
    simp only [getD_repairRow_cauchy]
    refine ErasureCode.cauchy_mds (fun m => Byte.ofNat (k + m)) (fun i : Fin k => Byte.ofNat i)
      (255 - k) ?_ ?_ ?_
    · intro a boundA b boundB equal
      have same := ofNat_injOn (by simp at boundA; omega) (by simp at boundB; omega) equal
      omega
    · intro a b equal
      exact Fin.ext (ofNat_injOn (by omega) (by omega) equal)
    · intro m boundM i equal
      have same := ofNat_injOn (by omega) (by omega) equal
      omega
  | pq =>
    simp only [getD_repairRow_pq]
    refine ErasureCode.parity_mds (fun i : Fin k => pow i) ?_ (fun i => pow_ne_zero i)
    intro a b equal
    rcases lt_trichotomy (a : ℕ) b with less | same | greater
    · exact absurd equal (pow_ne_pow less (by omega))
    · exact Fin.ext same
    · exact absurd equal.symm (pow_ne_pow greater (by omega))

/-! ### Accumulated shards -/

theorem getD_zipWith (f : Byte → Byte → Byte) (first second : List Byte) (j : Nat)
    (length : first.length = second.length) (zero : f 0 0 = 0) :
    (List.zipWith f first second).getD j 0 = f (first.getD j 0) (second.getD j 0) := by
  by_cases bound : j < first.length
  · have secondBound : j < second.length := by omega
    simp [getD_eq_getElem?_getD, bound, secondBound]
  · rw [getD_eq_default _ _ (by simp; omega), getD_eq_default _ _ (by omega),
      getD_eq_default _ _ (by omega), zero]

theorem length_mulAddRow (coeff : Byte) (src dst : List Byte) (length : src.length = dst.length) :
    (mulAddRow coeff src dst).length = dst.length := by
  unfold mulAddRow mulSliceInto
  split_ifs <;> simp [length]

theorem getD_mulAddRow (coeff : Byte) (src dst : List Byte) (length : src.length = dst.length)
    (j : Nat) : (mulAddRow coeff src dst).getD j 0 = dst.getD j 0 + coeff * src.getD j 0 := by
  unfold mulAddRow mulSliceInto
  split_ifs with isZero isOne
  · rw [isZero, zero_mul, add_zero]
  · rw [isOne, one_mul]
    exact getD_zipWith Byte.xor dst src j length.symm (by decide)
  · rw [getD_zipWith _ dst src j length.symm (by rw [mul_zero_left]; decide), add_eq, mul_eq,
      mul_comm]

theorem accumulate_spec {k : Nat} (len : Nat) (coef : Fin k → Byte) (shard : Fin k → List Byte)
    (length : ∀ i, (shard i).length = len) :
    (accumulate len coef shard).length = len ∧
      ∀ j, (accumulate len coef shard).getD j 0 = ∑ i, coef i * (shard i).getD j 0 := by
  have general : ∀ (order : List (Fin k)) (acc : List Byte), acc.length = len →
      (order.foldl (fun acc i => mulAddRow (coef i) (shard i) acc) acc).length = len ∧
        ∀ j, (order.foldl (fun acc i => mulAddRow (coef i) (shard i) acc) acc).getD j 0 =
          acc.getD j 0 + (order.map fun i => coef i * (shard i).getD j 0).sum := by
    intro order
    induction order with
    | nil =>
      intro acc accLength
      simp [accLength]
    | cons i rest ih =>
      intro acc accLength
      have same : (shard i).length = acc.length := by rw [length, accLength]
      have next := ih (mulAddRow (coef i) (shard i) acc)
        (by rw [length_mulAddRow _ _ _ same, accLength])
      refine ⟨next.1, fun j => ?_⟩
      rw [foldl_cons, next.2 j, getD_mulAddRow _ _ _ same, map_cons, sum_cons,
        add_assoc]
  have whole := general (finRange k) (replicate len 0) length_replicate
  refine ⟨whole.1, fun j => ?_⟩
  rw [accumulate, whole.2 j, Fin.sum_univ_def]
  simp

theorem encodeRepair_spec (source : List (List Byte)) (len r : Nat) (scheme : Scheme)
    (nonempty : source ≠ []) (length : ∀ shard ∈ source, shard.length = len) (m : Nat)
    (bound : m < r) :
    ((encodeRepair source r scheme).getD m []).length = len ∧
      ∀ j, ((encodeRepair source r scheme).getD m []).getD j 0 =
        ∑ i : Fin source.length, (repairRow scheme source.length m).getD i 0 *
          (source.getD i []).getD j 0 := by
  have first : (source.head?.map List.length).getD 0 = len := by
    obtain ⟨head, rest, rfl⟩ := exists_cons_of_ne_nil nonempty
    simpa using length head mem_cons_self
  have shard := accumulate_spec len
    (fun i : Fin source.length => (repairRow scheme source.length m).getD i 0) source.get
    (fun i => length _ (get_mem source i))
  have read : (encodeRepair source r scheme).getD m [] = accumulate len
      (fun i : Fin source.length => (repairRow scheme source.length m).getD i 0) source.get := by
    simp only [encodeRepair, first, getD_eq_getElem?_getD, getElem?_map,
      getElem?_range bound, Option.map_some, Option.getD_some]
  rw [read]
  refine ⟨shard.1, fun j => ?_⟩
  rw [shard.2 j]
  refine Finset.sum_congr rfl fun i _ => ?_
  rw [getD_eq_getElem _ _ i.isLt]
  rfl

/-! ### Reconstruction restores the payload -/

structure Received (k shardLen : Nat) (original : Nat → Byte) (scheme : Scheme)
    (payload : List Byte) (seenMask : List (BitVec 64)) (repairShards : List (Nat × List Byte)) :
    Prop where
  length : payload.length = k * shardLen
  sources : ∀ i < k, isSet seenMask i = true → ∀ j < shardLen,
    payload.getD (i * shardLen + j) 0 = original (i * shardLen + j)
  repairLength : ∀ shard ∈ repairShards, shard.2.length = shardLen
  repairIndex : ∀ shard ∈ repairShards, k ≤ shard.1 ∧ shard.1 < k + scheme.repairLimit k
  repairValue : ∀ shard ∈ repairShards, ∀ j < shardLen, shard.2.getD j 0 =
    ∑ i : Fin k, (repairRow scheme k (shard.1 - k)).getD i 0 * original (i * shardLen + j)
  distinct : (repairShards.map Prod.fst).Nodup
  enough : k ≤ (presentSources k seenMask).length + repairShards.length

theorem fillRows_eq (k shardLen : Nat) (rows : List (Nat × ShardRef))
    (repairShards : List (Nat × List Byte)) (fits : rows.length ≤ k)
    (length : ∀ shard ∈ repairShards, shard.2.length = shardLen) :
    fillRows k shardLen rows repairShards = rows ++
      (repairShards.take (k - rows.length)).map fun shard =>
        (shard.1, ShardRef.repair shard.2) := by
  induction repairShards generalizing rows with
  | nil => simp [fillRows]
  | cons shard rest ih =>
    obtain ⟨idx, bytes⟩ := shard
    have headLength : bytes.length = shardLen := length (idx, bytes) mem_cons_self
    have restLength := fun other member => length other (mem_cons_of_mem _ member)
    unfold fillRows
    by_cases full : rows.length = k
    · simp [full]
    · obtain ⟨space, spaceEq⟩ : ∃ space, k - rows.length = space + 1 :=
        ⟨k - rows.length - 1, by omega⟩
      have shrunk : k - (rows ++ [(idx, ShardRef.repair bytes)]).length = space := by
        simp only [length_append, length_singleton]
        omega
      rw [if_neg full, if_neg (not_not.mpr headLength),
        ih _ (by simp; omega) restLength, shrunk, spaceEq]
      simp

section Reconstruct

variable {k shardLen : Nat} {original : Nat → Byte} {scheme : Scheme} {payload : List Byte}
  {seenMask : List (BitVec 64)} {repairShards : List (Nat × List Byte)}

theorem length_presentSources_le (k : Nat) (seenMask : List (BitVec 64)) :
    (presentSources k seenMask).length ≤ k := by
  calc (presentSources k seenMask).length ≤ (range k).length := length_filter_le _ _
    _ = k := length_range

theorem mem_presentSources {k : Nat} {seenMask : List (BitVec 64)} {i : Nat} :
    i ∈ presentSources k seenMask ↔ i < k ∧ isSet seenMask i = true := by
  simp [presentSources]

section

variable (received : Received k shardLen original scheme payload seenMask repairShards)

include received

theorem selectRows_eq :
    selectRows k shardLen seenMask repairShards =
      (presentSources k seenMask).map (fun idx => (idx, ShardRef.source idx)) ++
        (repairShards.take (k - (presentSources k seenMask).length)).map
          fun shard => (shard.1, ShardRef.repair shard.2) := by
  unfold selectRows
  rw [fillRows_eq _ _ _ _ (by simpa using length_presentSources_le k seenMask)
    received.repairLength]
  simp

theorem length_selectRows : (selectRows k shardLen seenMask repairShards).length = k := by
  have enough := received.enough
  have upper := length_presentSources_le k seenMask
  rw [selectRows_eq received]
  simp only [length_append, length_map, length_take]
  omega

theorem nodup_selectRows : ((selectRows k shardLen seenMask repairShards).map Prod.fst).Nodup := by
  rw [selectRows_eq received, map_append, map_map, map_map]
  have sources : (presentSources k seenMask).Nodup := nodup_range.filter _
  have repairs : ((repairShards.take (k - (presentSources k seenMask).length)).map
      Prod.fst).Nodup := by
    rw [map_take]
    exact received.distinct.sublist (take_sublist _ _)
  refine nodup_append.mpr ⟨by simpa [Function.comp_def] using sources,
    by simpa [Function.comp_def] using repairs, ?_⟩
  intro index inSources other inRepairs
  obtain ⟨i, present, rfl⟩ := mem_map.mp inSources
  obtain ⟨shard, taken, rfl⟩ := mem_map.mp inRepairs
  have low := (mem_presentSources.mp present).1
  have high := (received.repairIndex shard (mem_of_mem_take taken)).1
  simp only [Function.comp_apply]
  omega

end

structure InPlace (k shardLen : Nat) (original : Nat → Byte) (seenMask : List (BitVec 64))
    (payload : List Byte) : Prop where
  length : payload.length = k * shardLen
  agrees : ∀ i < k, isSet seenMask i = true → ∀ j < shardLen,
    payload.getD (i * shardLen + j) 0 = original (i * shardLen + j)

structure Carries (k shardLen : Nat) (original : Nat → Byte) (scheme : Scheme)
    (seenMask : List (BitVec 64)) (rows : List (Nat × ShardRef)) : Prop where
  count : rows.length = k
  distinct : (rows.map Prod.fst).Nodup
  index : ∀ row ∈ rows, row.1 < k + scheme.repairLimit k
  value : ∀ current, InPlace k shardLen original seenMask current → ∀ row ∈ rows,
    (shardBytes current shardLen row.2).length = shardLen ∧
      ∀ j < shardLen, (shardBytes current shardLen row.2).getD j 0 =
        ∑ i : Fin k, generatorEntry scheme k row.1 i * original (i * shardLen + j)

theorem sum_generatorEntry_source {idx : Nat} (bound : idx < k) (j : Nat) :
    ∑ i : Fin k, generatorEntry scheme k idx i * original (i * shardLen + j) =
      original (idx * shardLen + j) := by
  rw [Finset.sum_eq_single (⟨idx, bound⟩ : Fin k)]
  · simp [generatorEntry, bound]
  · intro i _ other
    have different : idx ≠ i := fun equal => other (Fin.ext equal.symm)
    simp [generatorEntry, bound, different]
  · simp

theorem Received.carries
    (received : Received k shardLen original scheme payload seenMask repairShards) :
    Carries k shardLen original scheme seenMask
      (selectRows k shardLen seenMask repairShards) := by
  refine ⟨length_selectRows received, nodup_selectRows received, ?_, ?_⟩
  · intro row member
    rw [selectRows_eq received, mem_append] at member
    rcases member with source | repair
    · obtain ⟨idx, present, rfl⟩ := mem_map.mp source
      exact Nat.lt_add_right _ (mem_presentSources.mp present).1
    · obtain ⟨shard, taken, rfl⟩ := mem_map.mp repair
      exact (received.repairIndex shard (mem_of_mem_take taken)).2
  · intro current inPlace row member
    rw [selectRows_eq received, mem_append] at member
    rcases member with source | repair
    · obtain ⟨idx, present, rfl⟩ := mem_map.mp source
      obtain ⟨bound, set⟩ := mem_presentSources.mp present
      have inside : idx * shardLen + shardLen ≤ current.length := by
        rw [inPlace.length, ← Nat.succ_mul]
        exact Nat.mul_le_mul_right _ bound
      refine ⟨length_slice _ _ _ inside, fun j small => ?_⟩
      rw [shardBytes, getD_slice _ _ _ _ _ small, inPlace.agrees idx bound set j small,
        sum_generatorEntry_source bound]
    · obtain ⟨shard, taken, rfl⟩ := mem_map.mp repair
      have inShards := mem_of_mem_take taken
      have low := (received.repairIndex shard inShards).1
      refine ⟨received.repairLength shard inShards, fun j small => ?_⟩
      rw [shardBytes, received.repairValue shard inShards j small]
      simp only [generatorEntry, if_neg (not_lt.mpr low)]

def rowIndex (rows : List (Nat × ShardRef)) (row : Fin k) : Nat := (rows.getD row (0, .repair [])).1

def Solves (inverse : GaussJordan.Rows Byte k) (scheme : Scheme) (rows : List (Nat × ShardRef)) :
    Prop :=
  ∀ source values : Fin k → Byte,
    (∀ row, values row =
      ∑ i : Fin k, generatorEntry scheme k (rowIndex rows row) i * source i) →
    ∀ i, GaussJordan.apply inverse values i = source i

namespace Carries

variable {rows : List (Nat × ShardRef)}
  (carries : Carries k shardLen original scheme seenMask rows)

include carries

theorem getD_mem (row : Fin k) : rows.getD row (0, .repair []) ∈ rows := by
  rw [getD_eq_getElem _ _ (by rw [carries.count]; exact row.isLt)]
  exact getElem_mem _

theorem rowIndex_injective : Function.Injective (rowIndex (k := k) rows) := by
  intro first second equal
  have bound : ∀ row : Fin k, (row : ℕ) < (rows.map Prod.fst).length :=
    fun row => by rw [length_map, carries.count]; exact row.isLt
  have injective := nodup_iff_injective_get.mp carries.distinct
  have position := @injective ⟨first, bound first⟩ ⟨second, bound second⟩ (by
    simpa [rowIndex, getD_eq_getElem?_getD, carries.count] using equal)
  exact Fin.ext (Fin.mk.inj position)

theorem no_invalid_row :
    (rows.any fun row => decide (k ≤ row.1 ∧ scheme = .pq ∧ 2 ≤ row.1 - k)) = false := by
  rw [any_eq_false]
  intro row member
  have limit := carries.index row member
  simp only [decide_eq_true_iff]
  rintro ⟨low, isPq, high⟩
  rw [isPq, Scheme.repairLimit] at limit
  omega

theorem invert_spec (bound : k ≤ 255) :
    ∃ inverse, GaussJordan.invert (Vector.ofFn fun row => Vector.ofFn fun i : Fin k =>
        generatorEntry scheme k (rows.getD row (0, .repair [])).1 i) = some inverse ∧
      Solves inverse scheme rows :=
  ErasureCode.recover (rowIndex rows) carries.rowIndex_injective
    (fun m (i : Fin k) => (repairRow scheme k m).getD i 0) (scheme.repairLimit k)
    (repairRow_mds scheme k bound) (fun row => carries.index _ (carries.getD_mem row))
    (Vector.ofFn fun row => Vector.ofFn fun i : Fin k =>
      generatorEntry scheme k (rows.getD row (0, .repair [])).1 i)
    (fun r i => by
      simp [GaussJordan.entry, generatorEntry, ErasureCode.generatorRow, rowIndex])

section Restore

variable {inverse : GaussJordan.Rows Byte k} (solves : Solves inverse scheme rows)

include solves

theorem recovered_shard {current : List Byte}
    (inPlace : InPlace k shardLen original seenMask current) (i : Fin k) :
    (accumulate shardLen (GaussJordan.entry inverse i) fun row : Fin k =>
        shardBytes current shardLen (rows.getD row (0, .repair [])).2).length = shardLen ∧
      ∀ j < shardLen, (accumulate shardLen (GaussJordan.entry inverse i) fun row : Fin k =>
        shardBytes current shardLen (rows.getD row (0, .repair [])).2).getD j 0 =
          original (i * shardLen + j) := by
  have row := fun row : Fin k => carries.value current inPlace _ (carries.getD_mem row)
  obtain ⟨shardLength, value⟩ := accumulate_spec shardLen (GaussJordan.entry inverse i) _
    (fun r => (row r).1)
  refine ⟨shardLength, fun j small => ?_⟩
  rw [value j]
  exact solves (fun i => original (i * shardLen + j)) _ (fun r => (row r).2 j small) i

theorem restore_spec (inPlace : InPlace k shardLen original seenMask payload) (count : Nat)
    (bound : count ≤ k) :
    (restore shardLen seenMask rows inverse payload count).length = k * shardLen ∧
      ∀ i < k, i < count ∨ isSet seenMask i = true → ∀ j < shardLen,
        (restore shardLen seenMask rows inverse payload count).getD (i * shardLen + j) 0 =
          original (i * shardLen + j) := by
  induction count with
  | zero =>
    refine ⟨inPlace.length, fun i small known j inside => ?_⟩
    have present : isSet seenMask i = true := known.resolve_left (Nat.not_lt_zero i)
    exact inPlace.agrees i small present j inside
  | succ count ih =>
    obtain ⟨length, values⟩ := ih (by omega)
    rw [restore, dif_pos (show count < k from bound)]
    by_cases present : isSet seenMask count = true
    · rw [if_pos present]
      refine ⟨length, fun i small known => values i small ?_⟩
      rcases known with before | set
      · rcases Nat.lt_or_eq_of_le (Nat.le_of_lt_succ before) with less | equal
        · exact Or.inl less
        · exact Or.inr (equal ▸ present)
      · exact Or.inr set
    · rw [if_neg present]
      obtain ⟨shardLength, shardValue⟩ := carries.recovered_shard solves
        ⟨length, fun i small set => values i small (Or.inr set)⟩ ⟨count, bound⟩
      have fits := length ▸ block_le shardLen bound
      refine ⟨by rw [length_copyInto _ _ _ (by rw [shardLength]; exact fits), length], ?_⟩
      intro i small known j inside
      rw [getD_copyInto_block shardLength fits inside]
      by_cases same : i = count
      · rw [if_pos same, same, shardValue j inside]
      · rw [if_neg same]
        refine values i small ?_ j inside
        rcases known with before | set
        · exact Or.inl (by omega)
        · exact Or.inr set

end Restore

end Carries

theorem Received.reconstruct_eq (bound : k ≤ 255)
    (received : Received k shardLen original scheme payload seenMask repairShards) :
    ∃ inverse : GaussJordan.Rows Byte k,
      Solves inverse scheme (selectRows k shardLen seenMask repairShards) ∧
      ∀ current : List Byte, k * shardLen ≤ current.length →
        reconstructMissingSources k shardLen current seenMask repairShards scheme =
          some (restore shardLen seenMask (selectRows k shardLen seenMask repairShards) inverse
            current k) := by
  have carries := received.carries
  obtain ⟨inverse, inverted, solves⟩ := carries.invert_spec bound
  refine ⟨inverse, solves, fun current long => ?_⟩
  unfold reconstructMissingSources
  rw [if_neg (not_lt.mpr long)]
  dsimp only
  rw [if_neg (by rw [carries.count]; exact lt_irrefl _), carries.no_invalid_row,
    if_neg Bool.false_ne_true, inverted]
  rfl

theorem reconstructMissingSources_spec (bound : k ≤ 255)
    (received : Received k shardLen original scheme payload seenMask repairShards) :
    ∃ restored, reconstructMissingSources k shardLen payload seenMask repairShards scheme =
        some restored ∧
      restored.length = k * shardLen ∧
      ∀ i < k, ∀ j < shardLen,
        restored.getD (i * shardLen + j) 0 = original (i * shardLen + j) := by
  obtain ⟨inverse, solves, reconstructed⟩ := received.reconstruct_eq bound
  obtain ⟨length, values⟩ :=
    received.carries.restore_spec solves ⟨received.length, received.sources⟩ k le_rfl
  exact ⟨_, reconstructed payload received.length.ge, length,
    fun i small => values i small (Or.inl small)⟩

end Reconstruct

end Yip.Transport.Rs
