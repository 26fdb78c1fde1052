/-
This file proves that the reassembler inverts the encoder.
-/

import Yip.Lib.Machine
import Yip.Transport.Encoding

namespace Yip.Transport

open ArrayList Rs FecEncoder List

/-! ### The seen mask -/

variable {ciphertext : List Byte} (re : FecReassembler) (objectKey : Nat) (mask : List (BitVec 64))

theorem isSet_eq_bit (length : mask.length = 4) (idx : Nat)
    (bound : idx < 256) : isSet mask idx = BitRing.bit mask idx := by
  rw [isSet, BitRing.bit, length, Nat.mod_eq_of_lt (show idx / 64 < 4 by omega),
    Bool.eq_iff_iff, bne_iff_ne, ne_eq,
    BitRing.and_one_shiftLeft_eq_zero _ _ (Nat.mod_lt _ (by decide))]
  simp

theorem length_markSeen (idx : Nat) : (markSeen mask idx).length = mask.length := by
  unfold markSeen
  split <;> simp

theorem isSet_markSeen (length : mask.length = 4) (idx other : Nat)
    (bound : idx < 256) (otherBound : other < 256) :
    isSet (markSeen mask idx) other = true ↔ isSet mask other = true ∨ other = idx := by
  have marked : markSeen mask idx = BitRing.mark mask idx := by
    rw [markSeen, if_pos bound, BitRing.mark, length,
      Nat.mod_eq_of_lt (show idx / 64 < 4 by omega)]
  rw [isSet_eq_bit _ (by rw [length_markSeen, length]) _ otherBound, marked,
    BitRing.bit_mark _ (by omega), isSet_eq_bit _ length _ otherBound, Bool.or_eq_true,
    decide_eq_true_iff, length]
  refine or_congr_right ⟨fun same => ?_, fun same => by rw [same]; exact ⟨rfl, rfl⟩⟩
  omega

/-! ### What an object has collected -/

section Collect

variable (ciphertext : List Byte) (coding : Coding)

/-- The parameters under which the object can be decoded. -/
structure Coding.Valid : Prop where
  some : 0 < coding.k
  room : coding.k < 255
  covers : (coding.k - 1) * coding.shardLen < ciphertext.length ∧
    ciphertext.length ≤ coding.k * coding.shardLen
  fits : coding.shardLen ≤ ciphertext.length
  within : coding.repairs ≤ coding.scheme.repairLimit coding.k
  indices : coding.k + coding.repairs ≤ 255

/-- The buffers hold the shards that were seen, and nothing else. -/
structure Collected (state : ObjState) (seen : List Nat) : Prop where
  distinct : seen.Nodup
  bounded : ∀ index ∈ seen, index < coding.k + coding.repairs
  k_eq : state.k = coding.k
  shardLen_eq : state.shardLen = coding.shardLen
  objectSize_eq : state.objectSize = ciphertext.length
  scheme_eq : state.scheme = coding.scheme
  maskLength : state.seenMask.length = 4
  mask : ∀ index < 256, isSet state.seenMask index = true ↔ index ∈ seen
  total : state.totalCount = seen.length
  sources : state.sourceCount = (seen.filter (· < coding.k)).length
  payloadLength : state.payload.length = coding.k * coding.shardLen
  payload : ∀ i < coding.k, ∀ j < coding.shardLen,
    state.payload.getD (i * coding.shardLen + j) 0 =
      if i ∈ seen then ciphertext.getD (i * coding.shardLen + j) 0 else 0
  repairIndices : state.repairShards.map Prod.fst = seen.filter (¬ · < coding.k)
  repairShards : ∀ shard ∈ state.repairShards,
    IsShard ciphertext coding.k coding.shardLen coding.scheme shard.1 shard.2

variable {ciphertext coding}

variable (state : ObjState) (index : Nat) (data : List Byte)

theorem store_fields :
    (state.store index data).k = state.k ∧ (state.store index data).shardLen = state.shardLen ∧
      (state.store index data).objectSize = state.objectSize ∧
      (state.store index data).scheme = state.scheme ∧
      (state.store index data).done = state.done ∧
      (state.store index data).expiresAtMs = state.expiresAtMs ∧
      (state.store index data).seenMask = markSeen state.seenMask index ∧
      (state.store index data).totalCount = state.totalCount + 1 := by
  unfold ObjState.store
  dsimp only
  split <;> exact ⟨rfl, rfl, rfl, rfl, rfl, rfl, rfl, rfl⟩

theorem store_source (isSource : index < state.k) :
    (state.store index data).sourceCount = state.sourceCount + 1 ∧
      (state.store index data).payload = copyInto state.payload (index * state.shardLen)
        (data.take (min data.length state.shardLen)) ∧
      (state.store index data).repairShards = state.repairShards := by
  simp [ObjState.store, isSource]

theorem store_repair (isRepair : ¬ index < state.k) :
    (state.store index data).sourceCount = state.sourceCount ∧
      (state.store index data).payload = state.payload ∧
      (state.store index data).repairShards = state.repairShards ++
        [(index, data ++ List.replicate (state.shardLen - data.length) 0)] := by
  simp [ObjState.store, isRepair]

theorem wireLen_le (valid : coding.Valid ciphertext) (index : Nat) :
    wireLen coding.k coding.shardLen ciphertext.length index ≤ coding.shardLen := by
  have upper : ciphertext.length ≤ (coding.k - 1) * coding.shardLen + coding.shardLen := by
    rw [← Nat.succ_mul, Nat.succ_eq_add_one, Nat.sub_add_cancel valid.some]
    exact valid.covers.2
  unfold wireLen
  split
  · omega
  · exact le_rfl

theorem payload_store_source (valid : coding.Valid ciphertext) (payload data : List Byte)
    (index : Nat) (isSource : index < coding.k)
    (length : payload.length = coding.k * coding.shardLen)
    (shard : IsShard ciphertext coding.k coding.shardLen coding.scheme index data)
    (blank : ∀ j < coding.shardLen, payload.getD (index * coding.shardLen + j) 0 = 0) :
    (copyInto payload (index * coding.shardLen)
        (data.take (min data.length coding.shardLen))).length = coding.k * coding.shardLen ∧
      ∀ i < coding.k, ∀ j < coding.shardLen,
        (copyInto payload (index * coding.shardLen)
          (data.take (min data.length coding.shardLen))).getD (i * coding.shardLen + j) 0 =
          if i = index then ciphertext.getD (i * coding.shardLen + j) 0
          else payload.getD (i * coding.shardLen + j) 0 := by
  obtain ⟨dataLength, values⟩ := shard.source isSource
  have short := wireLen_le valid index
  have whole : data.take (min data.length coding.shardLen) = data :=
    take_of_length_le (by omega)
  have fits : index * coding.shardLen + data.length ≤ payload.length := by
    have shardFits : (index + 1) * coding.shardLen ≤ coding.k * coding.shardLen :=
      Nat.mul_le_mul_right _ isSource
    rw [Nat.succ_mul] at shardFits
    omega
  rw [whole]
  refine ⟨by rw [length_copyInto _ _ _ fits, length], fun i small j inside => ?_⟩
  rw [getD_copyInto _ _ _ _ _ fits]
  by_cases same : i = index
  · subst same
    rw [if_pos rfl]
    split
    · rw [Nat.add_sub_cancel_left, values j (by omega)]
    · -- beyond the wire data lies padding, which only the last source has
      rename_i beyond
      rw [blank j inside, getD_eq_default]
      rw [dataLength, wireLen] at beyond
      split at beyond
      · rename_i last
        rw [last] at beyond ⊢
        omega
      · omega
  · rw [if_neg same, if_neg]
    rintro ⟨low, high⟩
    exact same (eq_of_same_position inside (show i * coding.shardLen + j -
      index * coding.shardLen < coding.shardLen by omega) (by omega))

section Store

variable (valid : coding.Valid ciphertext) {state : ObjState} {seen : List Nat}
  (collected : Collected ciphertext coding state seen) {index : Nat} {data : List Byte}
  (fresh : index ∉ seen)
  (shard : IsShard ciphertext coding.k coding.shardLen coding.scheme index data)

include collected

theorem Collected.store_sourceCount :
    (state.store index data).sourceCount =
      ((seen ++ [index]).filter (· < coding.k)).length := by
  rw [filter_append, length_append, ← collected.sources]
  by_cases isSource : index < coding.k
  · rw [(store_source state index data (by rw [collected.k_eq]; exact isSource)).1]
    simp [isSource]
  · rw [(store_repair state index data (by rw [collected.k_eq]; exact isSource)).1]
    simp [isSource]

include shard

theorem Collected.store_repairShards :
    (state.store index data).repairShards.map Prod.fst =
        (seen ++ [index]).filter (¬ · < coding.k) ∧
      ∀ stored ∈ (state.store index data).repairShards,
        IsShard ciphertext coding.k coding.shardLen coding.scheme stored.1 stored.2 := by
  rw [filter_append, ← collected.repairIndices]
  by_cases isSource : index < coding.k
  · rw [(store_source state index data (by rw [collected.k_eq]; exact isSource)).2.2]
    exact ⟨by simp [isSource], collected.repairShards⟩
  · have whole : data ++ replicate (state.shardLen - data.length) 0 = data := by
      rw [collected.shardLen_eq, (shard.repair (not_lt.mp isSource)).1]
      simp
    rw [(store_repair state index data (by rw [collected.k_eq]; exact isSource)).2.2, whole]
    exact ⟨by simp [not_lt.mp isSource],
      forall_mem_append.mpr ⟨collected.repairShards, forall_mem_singleton.mpr shard⟩⟩

include valid fresh

theorem Collected.store_payload :
    (state.store index data).payload.length = coding.k * coding.shardLen ∧
      ∀ i < coding.k, ∀ j < coding.shardLen,
        (state.store index data).payload.getD (i * coding.shardLen + j) 0 =
          if i ∈ seen ++ [index] then ciphertext.getD (i * coding.shardLen + j) 0 else 0 := by
  by_cases isSource : index < coding.k
  · rw [(store_source state index data (by rw [collected.k_eq]; exact isSource)).2.1,
      collected.shardLen_eq]
    obtain ⟨length, values⟩ := payload_store_source valid state.payload data index isSource
      collected.payloadLength shard (by
        intro j inside
        rw [collected.payload index isSource j inside, if_neg fresh])
    refine ⟨length, fun i small j inside => ?_⟩
    rw [values i small j inside, collected.payload i small j inside]
    by_cases same : i = index
    · simp [same]
    · simp [same]
  · rw [(store_repair state index data (by rw [collected.k_eq]; exact isSource)).2.1]
    refine ⟨collected.payloadLength, fun i small j inside => ?_⟩
    have other : i ≠ index := by omega
    rw [collected.payload i small j inside]
    simp [other]

theorem Collected.store (bound : index < coding.k + coding.repairs) :
    Collected ciphertext coding (state.store index data) (seen ++ [index]) := by
  obtain ⟨kEq, lenEq, sizeEq, schemeEq, -, -, maskEq, totalEq⟩ := store_fields state index data
  obtain ⟨payloadLength, payload⟩ := collected.store_payload valid fresh shard
  obtain ⟨repairIndices, repairShards⟩ := collected.store_repairShards shard
  have indices := valid.indices
  refine ⟨?_, ?_, kEq.trans collected.k_eq, lenEq.trans collected.shardLen_eq,
    sizeEq.trans collected.objectSize_eq, schemeEq.trans collected.scheme_eq, ?_, ?_, ?_,
    collected.store_sourceCount, payloadLength, payload, repairIndices, repairShards⟩
  · rw [← concat_eq_append, nodup_concat]
    exact ⟨fresh, collected.distinct⟩
  · exact forall_mem_append.mpr ⟨collected.bounded, forall_mem_singleton.mpr bound⟩
  · rw [maskEq, length_markSeen, collected.maskLength]
  · intro other otherBound
    rw [maskEq, isSet_markSeen _ collected.maskLength _ _ (by omega) otherBound,
      collected.mask other otherBound, mem_append, mem_singleton]
  · rw [totalEq, collected.total, length_append, length_singleton]

end Store

/-! ### Completion -/

theorem take_eq_ciphertext (valid : coding.Valid ciphertext) (payload : List Byte)
    (length : payload.length = coding.k * coding.shardLen)
    (values : ∀ i < coding.k, ∀ j < coding.shardLen,
      payload.getD (i * coding.shardLen + j) 0 = ciphertext.getD (i * coding.shardLen + j) 0) :
    payload.take ciphertext.length = ciphertext := by
  have positive : 0 < coding.shardLen := by
    by_contra zero
    have := valid.covers
    rw [show coding.shardLen = 0 by omega] at this
    omega
  apply ext_getElem
  · rw [length_take, length, Nat.min_eq_left valid.covers.2]
  · intro position _ inside
    have quotient := Nat.div_add_mod' position coding.shardLen
    have block : position / coding.shardLen < coding.k := by
      rw [Nat.div_lt_iff_lt_mul positive]
      exact inside.trans_le valid.covers.2
    have value := values _ block _ (Nat.mod_lt position positive)
    rw [quotient, getD_eq_getElem _ _ (inside.trans_le (length ▸ valid.covers.2)),
      getD_eq_getElem _ _ inside] at value
    rw [getElem_take, value]

theorem Collected.length_presentSources {state : ObjState} {seen : List Nat}
    (valid : coding.Valid ciphertext) (collected : Collected ciphertext coding state seen) :
    (presentSources coding.k state.seenMask).length =
      (seen.filter (· < coding.k)).length := by
  have room := valid.room
  have nodup : (presentSources coding.k state.seenMask).Nodup := nodup_range.filter _
  apply List.Perm.length_eq
  rw [perm_ext_iff_of_nodup nodup (collected.distinct.filter _)]
  intro i
  rw [mem_presentSources, mem_filter, decide_eq_true_iff]
  constructor
  · rintro ⟨small, set⟩
    exact ⟨(collected.mask i (by omega)).mp set, small⟩
  · rintro ⟨member, small⟩
    exact ⟨small, (collected.mask i (by omega)).mpr member⟩

theorem Collected.received {state : ObjState} {seen : List Nat} (valid : coding.Valid ciphertext)
    (collected : Collected ciphertext coding state seen) (full : seen.length = coding.k) :
    Received coding.k coding.shardLen (fun position => ciphertext.getD position 0) coding.scheme
      state.payload state.seenMask state.repairShards := by
  have room := valid.room
  have isRepair : ∀ shard ∈ state.repairShards,
      shard.1 ∈ seen ∧ coding.k ≤ shard.1 := by
    intro shard member
    have index : shard.1 ∈ seen.filter (¬ · < coding.k) := by
      rw [← collected.repairIndices]
      exact mem_map_of_mem member
    simpa using index
  refine ⟨collected.payloadLength, ?_, ?_, ?_, ?_, ?_, ?_⟩
  · intro i small set j inside
    rw [collected.payload i small j inside, if_pos ((collected.mask i (by omega)).mp set)]
  · intro shard member
    exact ((collected.repairShards shard member).repair (isRepair shard member).2).1
  · intro shard member
    have bounded := collected.bounded shard.1 (isRepair shard member).1
    have within := valid.within
    exact ⟨(isRepair shard member).2, by omega⟩
  · intro shard member
    exact ((collected.repairShards shard member).repair (isRepair shard member).2).2
  · rw [collected.repairIndices]
    exact collected.distinct.filter _
  · have repairs : state.repairShards.length = (seen.filter (¬ · < coding.k)).length := by
      rw [← collected.repairIndices, length_map]
    have split := length_eq_length_filter_add (l := seen) (fun i => decide (i < coding.k))
    rw [collected.length_presentSources valid, repairs]
    simp only [decide_not]
    omega

theorem Collected.all_sources {state : ObjState} {seen : List Nat}
    (collected : Collected ciphertext coding state seen) (full : seen.length = coding.k)
    (sources : (seen.filter (· < coding.k)).length = coding.k) (i : Nat) (small : i < coding.k) :
    i ∈ seen := by
  have everyone : seen.filter (· < coding.k) = seen :=
    filter_sublist.eq_of_length (by rw [sources, full])
  have below : ∀ index ∈ seen, index < coding.k := by
    intro index member
    rw [← everyone] at member
    simpa using (mem_filter.mp member).2
  have subset : seen.toFinset ⊆ Finset.range coding.k := by
    intro index member
    exact Finset.mem_range.mpr (below index (mem_toFinset.mp member))
  have equal := Finset.eq_of_subset_of_card_le subset (by
    rw [Finset.card_range, toFinset_card_of_nodup collected.distinct, full])
  exact mem_toFinset.mp (equal ▸ Finset.mem_range.mpr small)

theorem complete_fields :
    state.complete.1.done = true ∧ state.complete.1.expiresAtMs = state.expiresAtMs ∧
      state.complete.1.k = state.k ∧ state.complete.1.shardLen = state.shardLen ∧
      state.complete.1.objectSize = state.objectSize := by
  unfold ObjState.complete
  dsimp only
  split
  · exact ⟨rfl, rfl, rfl, rfl, rfl⟩
  · split <;> exact ⟨rfl, rfl, rfl, rfl, rfl⟩

theorem Collected.complete {state : ObjState} {seen : List Nat}
    (valid : coding.Valid ciphertext) (collected : Collected ciphertext coding state seen)
    (full : seen.length = coding.k) : state.complete.2.1 = some ciphertext := by
  unfold ObjState.complete
  by_cases sources : state.sourceCount = state.k
  · have present := collected.all_sources full (by
      rw [← collected.sources, sources, collected.k_eq])
    rw [if_pos sources, collected.objectSize_eq,
      take_eq_ciphertext valid _ collected.payloadLength]
    intro i small j inside
    rw [collected.payload i small j inside, if_pos (present i small)]
  · obtain ⟨restored, reconstructed, length, values⟩ :=
      reconstructMissingSources_spec valid.room.le (collected.received valid full)
    rw [← collected.k_eq, ← collected.shardLen_eq, ← collected.scheme_eq] at reconstructed
    rw [if_neg sources, reconstructed]
    exact congrArg some (collected.objectSize_eq ▸ take_eq_ciphertext valid _ length values)

end Collect

/-! ### Feeding the symbols of one object -/

theorem parsePayloadId_pack (index : Nat) (scheme : Scheme) (bound : index < 65536) :
    parsePayloadId (packPayloadId index scheme.toU8) = some (index, scheme) := by
  simp only [parsePayloadId, packPayloadId, ne_eq, not_true_eq_false, if_false,
    Scheme.fromU8_toU8, Option.map_some, Byte.toNat_ofNat, Option.some.injEq, Prod.mk.injEq,
    and_true]
  omega

theorem collected_fresh {coding : Coding} (symSize nowMs deadlineMs : Nat)
    (fits : min ciphertext.length symSize = coding.shardLen) (index : Nat) :
    Collected ciphertext coding (FecReassembler.fresh ⟨index, coding.scheme, coding.k, symSize⟩
      ciphertext.length nowMs deadlineMs) [] := by
  refine ⟨nodup_nil, by simp, rfl, fits, rfl, rfl, length_replicate, ?_, rfl, rfl, ?_,
    ?_, rfl, by simp [FecReassembler.fresh]⟩
  · intro other bound
    simp only [FecReassembler.fresh]
    rw [isSet_eq_bit _ length_replicate _ bound, BitRing.bit_replicate_zero]
    simp
  · rw [FecReassembler.fresh, length_replicate, fits]
  · intro i small j inside
    simp [FecReassembler.fresh]

theorem symbol_index_injective {objectId objectSize first second : Nat} {scheme : Scheme}
    {firstData secondData : List Byte} (firstBound : first < 255) (secondBound : second < 255)
    (equal : symbol objectId objectSize first scheme firstData =
      symbol objectId objectSize second scheme secondData) : first = second := by
  have parsed := congrArg (fun found => parsePayloadId found.payloadId) equal
  simp only [symbol] at parsed
  rw [parsePayloadId_pack _ _ (by omega), parsePayloadId_pack _ _ (by omega)] at parsed
  exact congrArg Prod.fst (Option.some.inj parsed)

theorem codingFor_valid {params : FlowParams} {repair : Nat}
    (nonempty : 0 < ciphertext.length) (positive : 0 < params.symbolSize)
    (room : sourceCount ciphertext.length params.symbolSize < 255) :
    (codingFor ciphertext.length params repair).Valid ciphertext where
  some := (shape _ _ nonempty positive).1
  room := room
  covers := shard_shape nonempty positive
  fits := min_le_left _ _
  within := codingFor_repairs_le _ _ _
  indices := by
    simp only [codingFor]
    omega

/-- An object with all its shards. -/
structure Parcel where
  ciphertext : List Byte
  objectId : Nat
  symbolSize : Nat
  coding : Coding
  shard : Nat → List Byte
  small : ciphertext.length ≤ maxObjectSize
  positive : 0 < symbolSize
  k_eq : coding.k = sourceCount ciphertext.length symbolSize
  shardLen_eq : coding.shardLen = shardLen ciphertext.length symbolSize
  valid : coding.Valid ciphertext
  shards : ∀ index < coding.k + coding.repairs,
    IsShard ciphertext coding.k coding.shardLen coding.scheme index (shard index)

section Feed

variable (parcel : Parcel)

namespace Parcel

def count : Nat := parcel.coding.k + parcel.coding.repairs

def symbol (index : Nat) : Symbol :=
  FecEncoder.symbol parcel.objectId parcel.ciphertext.length index parcel.coding.scheme
    (parcel.shard index)

theorem count_le : parcel.count ≤ 255 := parcel.valid.indices

variable {parcel}

theorem symbol_injective {first second : Nat} (firstBound : first < 255)
    (secondBound : second < 255) (equal : parcel.symbol first = parcel.symbol second) :
    first = second :=
  symbol_index_injective firstBound secondBound equal

end Parcel

theorem exists_parcel {ciphertext : List Byte} {params other : FlowParams} {repair : Nat}
    (objectId : Nat) (nonempty : 0 < ciphertext.length)
    (small : ciphertext.length ≤ maxObjectSize) (positive : 0 < params.symbolSize)
    (room : sourceCount ciphertext.length params.symbolSize < 255)
    (otherPositive : 0 < other.symbolSize) (alike : codingFor ciphertext.length params repair =
      codingFor ciphertext.length other repair) :
    ∃ parcel : Parcel, parcel.ciphertext = ciphertext ∧ parcel.objectId = objectId ∧
      parcel.symbolSize = other.symbolSize ∧
      parcel.coding.scheme = (codingFor ciphertext.length params repair).scheme ∧
      build ciphertext params objectId repair =
        (List.range parcel.count).map parcel.symbol := by
  obtain ⟨shard, built, shards⟩ := build_spec ciphertext params objectId repair nonempty positive
    room _ rfl
  exact ⟨⟨ciphertext, objectId, other.symbolSize, _, shard, small, otherPositive,
    congrArg Coding.k alike, congrArg Coding.shardLen alike,
    codingFor_valid nonempty positive room, shards⟩, rfl, rfl, rfl, rfl, built⟩

structure Progress (deadline : Nat) (state : ObjState) (before : List Symbol) : Prop where
  expires : state.expiresAtMs = deadline
  k_eq : state.k = parcel.coding.k
  shardLen_eq : state.shardLen = parcel.coding.shardLen
  objectSize_eq : state.objectSize = parcel.ciphertext.length
  phase : (state.done = true ∧ parcel.coding.k ≤ before.dedup.length) ∨
    (state.done = false ∧ ∃ seen, Collected parcel.ciphertext parcel.coding state seen ∧
      (∀ symbol, symbol ∈ before ↔ symbol ∈ seen.map parcel.symbol) ∧
      seen.length < parcel.coding.k)

variable {parcel} {deadline : Nat} {state : ObjState} {before : List Symbol}

theorem length_dedup_eq {seen : List Nat}
    (collected : Collected parcel.ciphertext parcel.coding state seen)
    (same : ∀ symbol, symbol ∈ before ↔ symbol ∈ seen.map parcel.symbol) :
    before.dedup.length = seen.length := by
  have bounded : ∀ index ∈ seen, index < 255 := fun index member =>
    (collected.bounded index member).trans_le parcel.count_le
  have mapped : (seen.map parcel.symbol).Nodup :=
    collected.distinct.map_on fun first firstMember second secondMember equal =>
      Parcel.symbol_injective (bounded first firstMember) (bounded second secondMember) equal
  have perm : before.dedup.Perm (seen.map parcel.symbol) := by
    rw [perm_ext_iff_of_nodup (nodup_dedup _) mapped]
    exact fun symbol => mem_dedup.trans (same symbol)
  rw [perm.length_eq, length_map]

theorem length_dedup_append_ge (before : List Symbol) (symbol : Symbol) :
    before.dedup.length ≤ (before ++ [symbol]).dedup.length := by
  rw [← card_toFinset, ← card_toFinset]
  exact Finset.card_le_card (by simp)

theorem Progress.ingest (progress : Progress parcel deadline state before) {index : Nat}
    (bound : index < parcel.count) {nowMs : Nat} (timely : nowMs ≤ deadline) :
    Progress parcel deadline
        (state.ingest index parcel.coding.scheme (parcel.shard index) nowMs).1
        (before ++ [parcel.symbol index]) ∧
      (state.ingest index parcel.coding.scheme (parcel.shard index) nowMs).2.1 =
        if parcel.symbol index ∉ before ∧ before.dedup.length + 1 = parcel.coding.k
        then some parcel.ciphertext else none := by
  have indices := parcel.count_le
  have live : ¬ nowMs > state.expiresAtMs := by rw [progress.expires]; omega
  obtain ⟨expires, kEq, lenEq, sizeEq, phase⟩ := progress
  unfold ObjState.ingest
  rw [if_neg live]
  rcases phase with ⟨done, enough⟩ | ⟨collecting, seen, collected, same, few⟩
  · rw [if_pos done, if_neg (by omega)]
    exact ⟨⟨expires, kEq, lenEq, sizeEq,
      Or.inl ⟨done, enough.trans (length_dedup_append_ge ..)⟩⟩, rfl⟩
  have seenIff : isSeen state.seenMask index = true ↔ index ∈ seen := by
    rw [isSeen, if_neg (by omega), collected.mask index (by omega)]
  rw [if_neg (by simp [collecting]), if_neg (not_not.mpr collected.scheme_eq)]
  by_cases known : index ∈ seen
  · have there : parcel.symbol index ∈ before := (same _).mpr (mem_map_of_mem known)
    rw [if_pos (seenIff.mpr known), if_neg (fun new => new.1 there)]
    refine ⟨⟨expires, kEq, lenEq, sizeEq, Or.inr ⟨collecting, seen, collected, ?_, few⟩⟩, rfl⟩
    intro symbol
    rw [mem_append, mem_singleton, ← same]
    exact or_iff_left_of_imp fun new => new ▸ there
  have new : parcel.symbol index ∉ before := by
    intro member
    obtain ⟨other, inSeen, equal⟩ := mem_map.mp ((same _).mp member)
    have bounded := collected.bounded other inSeen
    rw [Parcel.symbol_injective (bounded.trans_le indices) (by omega) equal] at inSeen
    exact known inSeen
  have count := length_dedup_eq collected same
  have stored := collected.store parcel.valid known (parcel.shards index bound) bound
  obtain ⟨-, -, -, -, storedDone, storedExpires, -, -⟩ :=
    store_fields state index (parcel.shard index)
  have storedCount : (seen ++ [index]).length = seen.length + 1 := by simp
  have storedSame : ∀ symbol, symbol ∈ before ++ [parcel.symbol index] ↔
      symbol ∈ (seen ++ [index]).map parcel.symbol := by
    intro symbol
    rw [map_append, mem_append, mem_append, same]
    rfl
  rw [if_neg (mt seenIff.mp known)]
  dsimp only
  rw [stored.total, stored.k_eq, storedCount]
  by_cases last : seen.length + 1 = parcel.coding.k
  · rw [if_neg (by omega), if_pos ⟨new, by omega⟩]
    obtain ⟨done, sameExpires, sameK, sameLen, sameSize⟩ :=
      complete_fields (state.store index (parcel.shard index))
    have total := length_dedup_eq stored storedSame
    refine ⟨⟨sameExpires.trans (storedExpires.trans expires), sameK.trans stored.k_eq,
      sameLen.trans stored.shardLen_eq, sameSize.trans stored.objectSize_eq,
      Or.inl ⟨done, by omega⟩⟩, stored.complete parcel.valid (by omega)⟩
  · rw [if_pos (by omega), if_neg (by omega)]
    exact ⟨⟨storedExpires.trans expires, stored.k_eq, stored.shardLen_eq, stored.objectSize_eq,
      Or.inr ⟨storedDone.trans collecting, seen ++ [index], stored, storedSame, by omega⟩⟩, rfl⟩

theorem accept_honest (re : FecReassembler) (objectKey symSize : Nat) {index : Nat}
    (bound : index < parcel.count) (configured : re.symbolSize ≠ 0)
    (shapeEq : re.objectShape objectKey parcel.ciphertext.length =
      some (parcel.coding.k, symSize))
    (fits : min parcel.ciphertext.length symSize = parcel.coding.shardLen)
    (prior : (parcel.coding.k - 1) * symSize = (parcel.coding.k - 1) * parcel.coding.shardLen) :
    re.accept objectKey (parcel.symbol index) =
      some ⟨index, parcel.coding.scheme, parcel.coding.k, symSize⟩ := by
  have indices := parcel.count_le
  obtain ⟨some, room, ⟨covers, -⟩, -, within, -⟩ := parcel.valid
  have small := parcel.small
  have shardOf := parcel.shards index bound
  have expected : FecReassembler.expectedWireLen parcel.coding.k symSize
      parcel.ciphertext.length index = Option.some (parcel.shard index).length := by
    unfold FecReassembler.expectedWireLen
    rw [fits, prior]
    by_cases isSource : index < parcel.coding.k
    · rw [(shardOf.source isSource).1, wireLen]
      split
      · rw [if_pos (by omega)]
      · rfl
    · rw [(shardOf.repair (not_lt.mp isSource)).1, if_neg (by omega)]
  have pqRow : ¬ (parcel.coding.scheme = .pq ∧ index ≥ parcel.coding.k + 2) := by
    rintro ⟨isPq, beyond⟩
    rw [isPq, Scheme.repairLimit] at within
    unfold Parcel.count at bound
    omega
  unfold FecReassembler.accept
  rw [if_neg (by simp only [Parcel.symbol, symbol]; omega)]
  simp only [Parcel.symbol, symbol]
  rw [parsePayloadId_pack _ _ (by omega)]
  simp only [Option.bind_some]
  rw [if_neg (by omega), shapeEq]
  simp only [Option.bind_some]
  rw [if_neg (by omega), expected]
  simp only [Option.bind_some, ne_eq, not_true_eq_false, if_false]
  rw [if_neg pqRow]

end Feed

/-! ### One object among others -/

theorem sweepFrom_object (objectKey nowMs : Nat) (re : FecReassembler) (queue : List Nat) :
    (re.sweepFrom objectKey nowMs queue).objects.lookup objectKey =
        re.objects.lookup objectKey ∧
      (re.sweepFrom objectKey nowMs queue).symbolSize = re.symbolSize := by
  induction queue generalizing re with
  | nil => exact ⟨rfl, rfl⟩
  | cons oldest rest ih =>
    unfold FecReassembler.sweepFrom
    split
    · exact ⟨rfl, rfl⟩
    · rename_i other
      split
      · split
        · obtain ⟨object, size⟩ := ih _
          exact ⟨object.trans (AList.lookup_erase_ne (Ne.symm other)), size⟩
        · exact ⟨rfl, rfl⟩
      · exact ih _

theorem evict_symbolSize : re.evict.symbolSize = re.symbolSize := by
  unfold FecReassembler.evict
  split
  · rfl
  · split <;> rfl

theorem enter_object (incoming : FecReassembler.Incoming) (objectSize nowMs deadlineMs : Nat) :
    (re.enter objectKey incoming objectSize nowMs deadlineMs).objects.lookup objectKey =
        some ((re.objects.lookup objectKey).getD
          (FecReassembler.fresh incoming objectSize nowMs deadlineMs)) ∧
      (re.enter objectKey incoming objectSize nowMs deadlineMs).symbolSize = re.symbolSize := by
  unfold FecReassembler.enter
  cases known : re.objects.lookup objectKey with
  | some state => exact ⟨known, rfl⟩
  | none =>
    refine ⟨AList.lookup_insert _, ?_⟩
    dsimp only
    split
    · exact evict_symbolSize re
    · rfl

theorem push_object (symbol : Symbol)
    (incoming : FecReassembler.Incoming) (admitted : re.accept objectKey symbol = some incoming)
    (nowMs deadlineMs : Nat) (state : ObjState)
    (start : (re.objects.lookup objectKey).getD
      (FecReassembler.fresh incoming symbol.objectSize nowMs deadlineMs) = state) :
    (re.push objectKey symbol nowMs deadlineMs).1.objects.lookup objectKey =
        some (state.ingest incoming.symbolIndex incoming.scheme symbol.data nowMs).1 ∧
      (re.push objectKey symbol nowMs deadlineMs).1.symbolSize = re.symbolSize ∧
      (re.push objectKey symbol nowMs deadlineMs).2 =
        (state.ingest incoming.symbolIndex incoming.scheme symbol.data nowMs).2.1 := by
  obtain ⟨swept, sweptSize⟩ := sweepFrom_object objectKey nowMs re re.order
  obtain ⟨entered, enteredSize⟩ := enter_object (re.sweep objectKey nowMs) objectKey incoming
    symbol.objectSize nowMs deadlineMs
  rw [show (re.sweep objectKey nowMs).objects.lookup objectKey = re.objects.lookup objectKey
    from swept, start] at entered
  unfold FecReassembler.push
  rw [admitted]
  simp only [entered]
  exact ⟨AList.lookup_insert _, enteredSize.trans sweptSize, trivial⟩

section RoundTrip

variable {parcel : Parcel}

def After (parcel : Parcel) (objectKey deadline : Nat) (re : FecReassembler)
    (before : List Symbol) : Prop :=
  (before = [] ∧ re.symbolSize = parcel.symbolSize ∧ re.objects.lookup objectKey = none) ∨
    ∃ state, re.symbolSize ≠ 0 ∧ re.objects.lookup objectKey = some state ∧
      Progress parcel deadline state before

theorem push_honest {objectKey deadlineMs deadline nowMs index : Nat} {re : FecReassembler}
    {before : List Symbol} (after : After parcel objectKey deadline re before)
    (first : before = [] → deadline = min (nowMs + deadlineMs) (2 ^ 64 - 1))
    (timely : nowMs ≤ deadline) (bound : index < parcel.count) :
    After parcel objectKey deadline (re.push objectKey (parcel.symbol index) nowMs deadlineMs).1
        (before ++ [parcel.symbol index]) ∧
      (re.push objectKey (parcel.symbol index) nowMs deadlineMs).2 =
        if parcel.symbol index ∉ before ∧ before.dedup.length + 1 = parcel.coding.k
        then some parcel.ciphertext else none := by
  have valid := parcel.valid
  rcases after with ⟨rfl, size, unknown⟩ | ⟨state, sized, object, progress⟩
  · have shapeEq : re.objectShape objectKey parcel.ciphertext.length =
        some (parcel.coding.k, parcel.symbolSize) := by
      rw [FecReassembler.objectShape, unknown, size, parcel.k_eq]
    have configured : re.symbolSize ≠ 0 := by rw [size]; exact parcel.positive.ne'
    have nonempty : 0 < parcel.ciphertext.length := Nat.zero_lt_of_lt valid.covers.1
    have prior : (parcel.coding.k - 1) * parcel.symbolSize =
        (parcel.coding.k - 1) * parcel.coding.shardLen := by
      rw [parcel.k_eq, parcel.shardLen_eq]
      by_cases one : sourceCount parcel.ciphertext.length parcel.symbolSize = 1
      · rw [one, Nat.sub_self, Nat.zero_mul, Nat.zero_mul]
      · rw [shardLen_of_several nonempty parcel.positive one]
    have admitted := accept_honest re objectKey _ bound configured shapeEq parcel.shardLen_eq.symm
      prior
    obtain ⟨stored, sameSize, output⟩ := push_object re objectKey _ _ admitted nowMs deadlineMs _
      (by rw [unknown])
    have entered : Progress parcel (min (nowMs + deadlineMs) (2 ^ 64 - 1)) _ [] :=
      ⟨rfl, rfl, parcel.shardLen_eq.symm, rfl, Or.inr ⟨rfl, [], collected_fresh parcel.symbolSize
        nowMs deadlineMs parcel.shardLen_eq.symm index, by simp, valid.some⟩⟩
    rw [← first rfl] at entered
    obtain ⟨progress, result⟩ := entered.ingest bound timely
    exact ⟨Or.inr ⟨_, by rw [sameSize]; exact configured, stored, progress⟩, output.trans result⟩
  · have shapeEq : re.objectShape objectKey parcel.ciphertext.length =
        some (parcel.coding.k, parcel.coding.shardLen) := by
      rw [FecReassembler.objectShape, object]
      simp only [progress.objectSize_eq, progress.k_eq, progress.shardLen_eq, ne_eq,
        not_true_eq_false, if_false]
    have admitted := accept_honest re objectKey _ bound sized shapeEq (min_eq_right valid.fits) rfl
    obtain ⟨stored, sameSize, output⟩ := push_object re objectKey _ _ admitted nowMs deadlineMs
      state (by rw [object]; rfl)
    obtain ⟨next, result⟩ := progress.ingest bound timely
    exact ⟨Or.inr ⟨_, by rw [sameSize]; exact sized, stored, next⟩, output.trans result⟩

def feed (objectKey deadlineMs : Nat) (re : FecReassembler) (arrivals : List (Symbol × Nat)) :
    FecReassembler :=
  Machine.run (fun re arrival => (re.push objectKey arrival.1 arrival.2 deadlineMs).1) re arrivals

/-- Symbols of the parcel, all within its deadline. -/
structure Timely (parcel : Parcel) (startMs deadlineMs : Nat) (arrivals : List (Symbol × Nat)) :
    Prop where
  honest : ∀ arrival ∈ arrivals, ∃ index < parcel.count, arrival.1 = parcel.symbol index
  start : ∀ arrival ∈ arrivals.head?, arrival.2 = startMs
  timely : ∀ arrival ∈ arrivals, arrival.2 ≤ min (startMs + deadlineMs) (2 ^ 64 - 1)

theorem Timely.init {startMs deadlineMs : Nat} {arrivals : List (Symbol × Nat)}
    {last : Symbol × Nat} (times : Timely parcel startMs deadlineMs (arrivals ++ [last])) :
    Timely parcel startMs deadlineMs arrivals where
  honest := fun arrival member => times.honest arrival (mem_append_left _ member)
  start := by
    intro arrival isHead
    refine times.start arrival ?_
    rw [head?_append, Option.mem_def.mp isHead]
    rfl
  timely := fun arrival member => times.timely arrival (mem_append_left _ member)

theorem after_feed (maxObjects objectKey : Nat) {deadlineMs startMs : Nat}
    {arrivals : List (Symbol × Nat)} (times : Timely parcel startMs deadlineMs arrivals) :
    After parcel objectKey (min (startMs + deadlineMs) (2 ^ 64 - 1))
      (feed objectKey deadlineMs (FecReassembler.new parcel.symbolSize maxObjects) arrivals)
      (arrivals.map Prod.fst) := by
  induction arrivals using reverseRecOn with
  | nil => exact Or.inl ⟨rfl, rfl, rfl⟩
  | append_singleton arrivals last ih =>
    obtain ⟨index, bound, equal⟩ := times.honest last (by simp)
    have first : arrivals.map Prod.fst = [] → min (startMs + deadlineMs) (2 ^ 64 - 1) =
        min (last.2 + deadlineMs) (2 ^ 64 - 1) := by
      intro empty
      have none : arrivals = [] := map_eq_nil_iff.mp empty
      rw [times.start last (by simp [none])]
    have next := push_honest (ih times.init) first
      (times.timely last (by simp)) bound
    rw [← equal] at next
    rw [feed, Machine.run_append, map_append]
    exact next.1

end RoundTrip

/-- The round trip: whatever the scheme, and whichever symbols of an encoded object arrive in
whatever order and with whatever repetitions before the deadline, a push returns the ciphertext
when it brings the `k`-th distinct symbol, and returns nothing otherwise. -/
theorem reassembler_inverts_encoder (encoder : FecEncoder) (ciphertext : List Byte)
    (params : FlowParams) (repair maxObjects objectKey deadlineMs startMs : Nat)
    (nonempty : 0 < ciphertext.length) (small : ciphertext.length ≤ maxObjectSize)
    (positive : 0 < params.symbolSize)
    (room : sourceCount ciphertext.length params.symbolSize < 255)
    (arrivals : List (Symbol × Nat)) (symbol : Symbol) (nowMs : Nat)
    (honest : ∀ arrival ∈ arrivals ++ [(symbol, nowMs)],
      arrival.1 ∈ (encoder.encode ciphertext params repair).2)
    (start : ∀ arrival ∈ (arrivals ++ [(symbol, nowMs)]).head?, arrival.2 = startMs)
    (timely : ∀ arrival ∈ arrivals ++ [(symbol, nowMs)],
      arrival.2 ≤ startMs + deadlineMs ∧ arrival.2 < 2 ^ 64) :
    ((feed objectKey deadlineMs (FecReassembler.new params.symbolSize maxObjects) arrivals).push
        objectKey symbol nowMs deadlineMs).2 =
      if symbol ∉ arrivals.map Prod.fst ∧
          (arrivals.map Prod.fst).dedup.length + 1 =
            sourceCount ciphertext.length params.symbolSize
      then some ciphertext else none := by
  obtain ⟨parcel, rfl, -, size, -, built⟩ :=
    exists_parcel encoder.nextObjectId nonempty small positive room positive rfl
  have listed : ∀ symbol ∈ (encoder.encode parcel.ciphertext params repair).2,
      ∃ index < parcel.count, symbol = parcel.symbol index := by
    rw [FecEncoder.encode, built]
    exact forall_mem_map.mpr fun index inRange => ⟨index, mem_range.mp inRange, rfl⟩
  have times : Timely parcel startMs deadlineMs (arrivals ++ [(symbol, nowMs)]) := by
    refine ⟨fun arrival member => listed _ (honest arrival member), start, ?_⟩
    intro arrival member
    have := timely arrival member
    omega
  have first : arrivals.map Prod.fst = [] →
      min (startMs + deadlineMs) (2 ^ 64 - 1) = min (nowMs + deadlineMs) (2 ^ 64 - 1) := by
    intro empty
    have none : arrivals = [] := map_eq_nil_iff.mp empty
    rw [← start (symbol, nowMs) (by simp [none])]
  obtain ⟨index, bound, equal⟩ := listed symbol (honest (symbol, nowMs) (by simp))
  have result := (push_honest (after_feed maxObjects objectKey times.init) first
    (times.timely (symbol, nowMs) (by simp)) bound).2
  rw [← equal, parcel.k_eq, size] at result
  exact result

/-- Three bytes in two source symbols and a parity symbol: the second source is lost, and the
parity symbol brings the object back. -/
theorem lost_source_restored_from_parity :
    ((feed 7 20 (FecReassembler.new 2 256)
        [(⟨0, 3, packPayloadId 0 (Byte.ofNat 1), [Byte.ofNat 1, Byte.ofNat 2]⟩, 100)]).push 7
      ⟨0, 3, packPayloadId 2 (Byte.ofNat 1), [Byte.ofNat 2, Byte.ofNat 2]⟩ 110 20).2 =
        some [Byte.ofNat 1, Byte.ofNat 2, Byte.ofNat 3] := by
  have result := reassembler_inverts_encoder FecEncoder.new
    [Byte.ofNat 1, Byte.ofNat 2, Byte.ofNat 3] ⟨2, 20, false⟩ 1 256 7 20 100
    (by decide) (by decide) (by decide) (by decide)
    [(⟨0, 3, packPayloadId 0 (Byte.ofNat 1), [Byte.ofNat 1, Byte.ofNat 2]⟩, 100)]
    ⟨0, 3, packPayloadId 2 (Byte.ofNat 1), [Byte.ofNat 2, Byte.ofNat 2]⟩ 110
    (by decide +kernel) (by decide) (by decide)
  exact result.trans (if_pos (by decide))

end Yip.Transport
