/-
This file says what the encoder puts on the wire.
-/

import Yip.Transport.Fec

namespace Yip.Transport

open ArrayList Rs FecEncoder List

/-! ### The shape of an object -/

variable (objectSize symbolSize : Nat)

def shardLen (objectSize symbolSize : Nat) : Nat := min objectSize symbolSize

theorem shape (nonempty : 0 < objectSize) (positive : 0 < symbolSize) :
    0 < sourceCount objectSize symbolSize ∧
      (sourceCount objectSize symbolSize - 1) * symbolSize < objectSize ∧
      objectSize ≤ sourceCount objectSize symbolSize * symbolSize := by
  have count : sourceCount objectSize symbolSize = (objectSize - 1) / symbolSize + 1 := by
    rw [sourceCount, if_neg positive.ne', show objectSize + symbolSize - 1 =
      objectSize - 1 + symbolSize by omega, Nat.add_div_right _ positive]
  have quotient := Nat.div_add_mod (objectSize - 1) symbolSize
  have remainder := Nat.mod_lt (objectSize - 1) positive
  rw [count, Nat.add_sub_cancel, Nat.add_mul, Nat.one_mul, Nat.mul_comm _ symbolSize]
  exact ⟨Nat.succ_pos _, by omega, by omega⟩

theorem sourceCount_eq_one_iff (nonempty : 0 < objectSize) (positive : 0 < symbolSize) :
    sourceCount objectSize symbolSize = 1 ↔ objectSize ≤ symbolSize := by
  obtain ⟨low, before, after⟩ := shape objectSize symbolSize nonempty positive
  constructor
  · intro one
    rw [one] at after
    omega
  · intro small
    by_contra several
    have two : 1 * symbolSize ≤ (sourceCount objectSize symbolSize - 1) * symbolSize :=
      Nat.mul_le_mul_right _ (by omega)
    omega

section Shape

variable {objectSize symbolSize : Nat} (nonempty : 0 < objectSize) (positive : 0 < symbolSize)

include nonempty positive

theorem shardLen_of_several (several : sourceCount objectSize symbolSize ≠ 1) :
    shardLen objectSize symbolSize = symbolSize := by
  have large := mt (sourceCount_eq_one_iff objectSize symbolSize nonempty positive).mpr several
  rw [shardLen]
  omega

theorem shardLen_of_one (one : sourceCount objectSize symbolSize = 1) :
    shardLen objectSize symbolSize = objectSize := by
  have small := (sourceCount_eq_one_iff objectSize symbolSize nonempty positive).mp one
  rw [shardLen]
  omega

theorem shard_shape :
    (sourceCount objectSize symbolSize - 1) * shardLen objectSize symbolSize < objectSize ∧
      objectSize ≤ sourceCount objectSize symbolSize * shardLen objectSize symbolSize := by
  by_cases one : sourceCount objectSize symbolSize = 1
  · rw [shardLen_of_one nonempty positive one, one]
    omega
  · rw [shardLen_of_several nonempty positive one]
    exact (shape objectSize symbolSize nonempty positive).2

end Shape

/-! ### Shards -/

def wireLen (k shardLen objectSize index : Nat) : Nat :=
  if index = k - 1 then objectSize - (k - 1) * shardLen else shardLen

/-- The shard of this index: a part of the object, or a combination of all parts. -/
structure IsShard (ciphertext : List Byte) (k shardLen : Nat) (scheme : Scheme) (index : Nat)
    (data : List Byte) : Prop where
  source : index < k → data.length = wireLen k shardLen ciphertext.length index ∧
    ∀ j < data.length, data.getD j 0 = ciphertext.getD (index * shardLen + j) 0
  repair : k ≤ index → data.length = shardLen ∧ ∀ j < shardLen, data.getD j 0 =
    ∑ i : Fin k, (repairRow scheme k (index - k)).getD i 0 *
      ciphertext.getD (i * shardLen + j) 0

variable (ciphertext : List Byte) (source : List (List Byte))

theorem length_splitSource (k sym : Nat) : (splitSource ciphertext k sym).length = k := by
  simp [splitSource]

theorem splitSource_spec (k sym i : Nat) (bound : i < k) :
    ((splitSource ciphertext k sym).getD i []).length = sym ∧
      ∀ j < sym, ((splitSource ciphertext k sym).getD i []).getD j 0 =
        ciphertext.getD (i * sym + j) 0 := by
  simp only [splitSource, getD_eq_getElem?_getD, getElem?_map,
    getElem?_range bound, Option.map_some, Option.getD_some]
  simp only [← getD_eq_getElem?_getD]
  split
  · rename_i inside
    have chunk : (slice ciphertext (i * sym)
        (min (i * sym + sym) ciphertext.length - i * sym)).length =
          min (i * sym + sym) ciphertext.length - i * sym := length_slice _ _ _ (by omega)
    have fits : 0 + (slice ciphertext (i * sym)
        (min (i * sym + sym) ciphertext.length - i * sym)).length ≤
          (replicate sym (0 : Byte)).length := by
      rw [chunk, length_replicate]
      omega
    refine ⟨by rw [length_copyInto _ _ _ fits, length_replicate], fun j small => ?_⟩
    rw [getD_copyInto _ _ _ _ _ fits, chunk]
    split
    · rw [Nat.sub_zero, getD_slice _ _ _ _ _ (by omega)]
    · rw [getD_replicate _ small, getD_eq_default _ _ (by omega)]
  · rename_i outside
    refine ⟨length_replicate, fun j small => ?_⟩
    rw [getD_replicate _ small, getD_eq_default _ _ (by omega)]

theorem mapIdx_eq_map_range {α β : Type*} (values : List α) (f : Nat → α → β) (fallback : α) :
    values.mapIdx f = (List.range values.length).map fun i => f i (values.getD i fallback) := by
  apply ext_getElem
  · simp
  · intro i inside _
    have bound : i < values.length := by simpa using inside
    simp [getD_eq_getElem?_getD, bound]

def shardData (source : List (List Byte)) (lastSourceLen r : Nat) (scheme : Scheme)
    (index : Nat) : List Byte :=
  if index < source.length then
    if index = source.length - 1 then (source.getD index []).take lastSourceLen
    else source.getD index []
  else (encodeRepair source r scheme).getD (index - source.length) []

theorem length_encodeRepair (r : Nat) (scheme : Scheme) :
    (encodeRepair source r scheme).length = r := by
  simp [encodeRepair]

theorem isShard_shardData (len r : Nat) (scheme : Scheme) (nonempty : source ≠ [])
    (covers : (source.length - 1) * len < ciphertext.length ∧
      ciphertext.length ≤ source.length * len)
    (shards : ∀ i < source.length, (source.getD i []).length = len ∧
      ∀ j < len, (source.getD i []).getD j 0 = ciphertext.getD (i * len + j) 0)
    (index : Nat) (bound : index < source.length + r) :
    IsShard ciphertext source.length len scheme index
      (shardData source (ciphertext.length - (source.length - 1) * len) r scheme index) := by
  constructor
  · intro isSource
    obtain ⟨length, values⟩ := shards index isSource
    rw [shardData, if_pos isSource, wireLen]
    have upper : ciphertext.length ≤ (source.length - 1) * len + len := by
      have positive : 0 < source.length := by omega
      rw [← Nat.succ_mul, Nat.succ_eq_add_one, Nat.sub_add_cancel positive]
      exact covers.2
    by_cases last : index = source.length - 1
    · rw [if_pos last, if_pos last]
      refine ⟨by rw [length_take, length]; omega, fun j small => ?_⟩
      rw [length_take, length] at small
      rw [getD_eq_getElem?_getD, getElem?_take, if_pos (by omega),
        ← getD_eq_getElem?_getD, values j (by omega)]
    · rw [if_neg last, if_neg last]
      exact ⟨length, fun j small => values j (by omega)⟩
  · intro isRepair
    have member : ∀ shard ∈ source, shard.length = len := by
      intro shard inSource
      obtain ⟨i, inside, rfl⟩ := getElem_of_mem inSource
      have := (shards i inside).1
      rwa [getD_eq_getElem _ _ inside] at this
    obtain ⟨length, values⟩ := encodeRepair_spec source len r scheme nonempty member
      (index - source.length) (by omega)
    rw [shardData, if_neg (by omega)]
    refine ⟨length, fun j small => ?_⟩
    rw [values j]
    exact Finset.sum_congr rfl fun i _ => by rw [(shards i i.isLt).2 j small]

structure Coding where
  k : Nat
  repairs : Nat
  shardLen : Nat
  scheme : Scheme

def codingFor (objectSize : Nat) (params : FlowParams) (repair : Nat) : Coding where
  k := sourceCount objectSize params.symbolSize
  repairs := min repair (255 - sourceCount objectSize params.symbolSize)
  shardLen := shardLen objectSize params.symbolSize
  scheme := schemeFor params.arq (min repair (255 - sourceCount objectSize params.symbolSize))

theorem codingFor_repairs_le (objectSize : Nat) (params : FlowParams) (repair : Nat) :
    (codingFor objectSize params repair).repairs ≤
      (codingFor objectSize params repair).scheme.repairLimit
        (codingFor objectSize params repair).k := by
  simp only [codingFor, schemeFor]
  split
  · rename_i few
    simp only [Bool.and_eq_true, Bool.or_eq_true, beq_iff_eq] at few
    rw [Scheme.repairLimit]
    omega
  · exact min_le_right _ _

theorem symbols_eq (objectId objectSize lastSourceLen r : Nat) (scheme : Scheme)
    (source : List (List Byte)) :
    (source.mapIdx fun i shard => symbol objectId objectSize i scheme
        (if i = source.length - 1 then shard.take lastSourceLen else shard)) ++
      (encodeRepair source r scheme).mapIdx (fun m rep =>
        symbol objectId objectSize (source.length + m) scheme rep) =
      (List.range (source.length + r)).map fun index =>
        symbol objectId objectSize index scheme
          (shardData source lastSourceLen r scheme index) := by
  rw [mapIdx_eq_map_range source _ [], mapIdx_eq_map_range (encodeRepair source r scheme) _ [],
    length_encodeRepair, range_add, map_append, map_map]
  congr 1
  · refine map_congr_left fun i member => ?_
    rw [shardData, if_pos (mem_range.mp member)]
  · refine map_congr_left fun m _ => ?_
    simp [shardData]

theorem build_spec (params : FlowParams) (objectId repair : Nat)
    (nonempty : 0 < ciphertext.length) (positive : 0 < params.symbolSize)
    (room : sourceCount ciphertext.length params.symbolSize < 255) (coding : Coding)
    (chosen : codingFor ciphertext.length params repair = coding) :
    ∃ shard : Nat → List Byte,
      (build ciphertext params objectId repair =
        (List.range (coding.k + coding.repairs)).map fun index =>
          symbol objectId ciphertext.length index coding.scheme (shard index)) ∧
      ∀ index < coding.k + coding.repairs,
        IsShard ciphertext coding.k coding.shardLen coding.scheme index (shard index) := by
  have some := (shape ciphertext.length params.symbolSize nonempty positive).1
  have covers := shard_shape nonempty positive
  subst chosen
  simp only [codingFor]
  unfold build
  simp only [if_neg positive.ne', if_neg (show ¬ (sourceCount ciphertext.length
    params.symbolSize = 0 ∨ sourceCount ciphertext.length params.symbolSize ≥ 255) by omega)]
  by_cases one : sourceCount ciphertext.length params.symbolSize = 1
  · have len := shardLen_of_one nonempty positive one
    rw [if_pos one]
    rw [len, one] at covers ⊢
    have equal := symbols_eq objectId ciphertext.length ciphertext.length
      (min repair (255 - 1)) (schemeFor params.arq (min repair (255 - 1))) [ciphertext]
    have head : (symbol objectId ciphertext.length 0
        (schemeFor params.arq (min repair (255 - 1))) ciphertext) =
        symbol objectId ciphertext.length 0 (schemeFor params.arq (min repair (255 - 1)))
          (ciphertext.take ciphertext.length) := by rw [take_length]
    refine ⟨_, by rw [head]; exact equal, fun index bound => ?_⟩
    have shard := isShard_shardData ciphertext [ciphertext] ciphertext.length
      (min repair (255 - 1)) (schemeFor params.arq (min repair (255 - 1)))
      (cons_ne_nil _ _) covers
      (by
        intro i small
        have zero : i = 0 := by simpa using small
        subst zero
        simp)
      index bound
    simpa using shard
  · have len := shardLen_of_several nonempty positive one
    rw [if_neg one]
    rw [len] at covers ⊢
    have length := length_splitSource ciphertext
      (sourceCount ciphertext.length params.symbolSize) params.symbolSize
    have equal := symbols_eq objectId ciphertext.length
      (ciphertext.length - (sourceCount ciphertext.length params.symbolSize - 1) *
        params.symbolSize)
      (min repair (255 - sourceCount ciphertext.length params.symbolSize))
      (schemeFor params.arq (min repair (255 - sourceCount ciphertext.length params.symbolSize)))
      (splitSource ciphertext (sourceCount ciphertext.length params.symbolSize) params.symbolSize)
    rw [length] at equal
    refine ⟨_, equal, fun index bound => ?_⟩
    have shard := isShard_shardData ciphertext
      (splitSource ciphertext (sourceCount ciphertext.length params.symbolSize) params.symbolSize)
      params.symbolSize
      (min repair (255 - sourceCount ciphertext.length params.symbolSize))
      (schemeFor params.arq (min repair (255 - sourceCount ciphertext.length params.symbolSize)))
      (by intro empty; rw [empty] at length; simp at length; omega)
      (by rw [length]; exact covers)
      (by
        rw [length]
        exact fun i small => splitSource_spec ciphertext _ _ i small)
      index (by rw [length]; exact bound)
    rw [length] at shard
    exact shard

end Yip.Transport
