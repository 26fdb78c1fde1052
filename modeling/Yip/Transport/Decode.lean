/-
This file models `decode_source` and `decode_source_into` of `rs.rs` and proves that any `k`
distinct shards of an object decode to its sources, in whatever order they come, and that
`reconstruct_missing_sources` restores the same bytes.
-/

import Yip.Transport.Rs

namespace Yip.Transport.Rs

open ArrayList List

def usableRows (k shardLen : Nat) :
    List (Nat × List Byte) → List (Nat × List Byte) → List (Nat × List Byte)
  | rows, [] => rows
  | rows, (idx, bytes) :: rest =>
    if 255 ≤ idx ∨ bytes.length ≠ shardLen ∨ idx ∈ rows.map Prod.fst then
      usableRows k shardLen rows rest
    else if (rows ++ [(idx, bytes)]).length = k then rows ++ [(idx, bytes)]
    else usableRows k shardLen (rows ++ [(idx, bytes)]) rest

def copyRows (shardLen : Nat) (rows : List (Nat × List Byte)) (outPayload : List Byte) :
    List Byte :=
  rows.foldl (fun payload row => copyInto payload (row.1 * shardLen) row.2) outPayload

def asRepair (row : Nat × List Byte) : Nat × ShardRef := (row.1, .repair row.2)

def decodeSourceInto (k shardLen : Nat) (received : List (Nat × List Byte)) (scheme : Scheme)
    (outPayload : List Byte) : Option (List Byte) :=
  if outPayload.length < k * shardLen then none
  else
    let rows := usableRows k shardLen [] received
    if rows.length < k then none
    else if rows.all fun row => decide (row.1 < k) then some (copyRows shardLen rows outPayload)
    else if rows.any fun row => decide (k ≤ row.1 ∧ scheme = .pq ∧ 2 ≤ row.1 - k) then none
    -- the loop never stops early for `k = 0`, and a row outside the matrix is a panic
    else if k < rows.length then none
    else
      let m : GaussJordan.Rows Byte k := Vector.ofFn fun row => Vector.ofFn fun i =>
        generatorEntry scheme k ((rows.map asRepair).getD row (0, .repair [])).1 i
      -- no source is in place: the write-back is that of the reconstruction, with no bit set
      (GaussJordan.invert m).map fun inverse =>
        restore shardLen [] (rows.map asRepair) inverse outPayload k

def decodeSource (k shardLen : Nat) (received : List (Nat × List Byte)) (scheme : Scheme) :
    Option (List (List Byte)) :=
  (decodeSourceInto k shardLen received scheme (List.replicate (k * shardLen) 0)).map fun flat =>
    (List.range k).map fun i => slice flat (i * shardLen) shardLen

def shardsAt (source : List (List Byte)) (r : Nat) (scheme : Scheme) (indices : List Nat) :
    List (Nat × List Byte) :=
  indices.map fun idx => (idx, (source ++ encodeRepair source r scheme).getD idx [])

/-! ### The loops of the decoder -/

theorem usableRows_eq {k shardLen : Nat} (rows received : List (Nat × List Byte))
    (count : rows.length + received.length = k) (distinct : ((rows ++ received).map Prod.fst).Nodup)
    (usable : ∀ row ∈ received, row.1 < 255 ∧ row.2.length = shardLen) :
    usableRows k shardLen rows received = rows ++ received := by
  induction received generalizing rows with
  | nil => rw [usableRows, append_nil]
  | cons row rest ih =>
    obtain ⟨idx, bytes⟩ := row
    obtain ⟨low, length⟩ := usable (idx, bytes) mem_cons_self
    have fresh : idx ∉ rows.map Prod.fst := by
      rw [map_append, nodup_append] at distinct
      exact fun member => distinct.2.2 idx member idx mem_cons_self rfl
    rw [usableRows, if_neg (by simp only [not_or, not_le, not_not]; exact ⟨low, length, fresh⟩)]
    rw [length_cons] at count
    split
    · next full =>
      rw [length_append, length_singleton] at full
      rw [length_eq_zero_iff.mp (show rest.length = 0 by omega)]
    · have shifted : (rows ++ [(idx, bytes)]).length + rest.length = k := by
        rw [length_append, length_singleton]
        omega
      rw [ih _ shifted (by rwa [append_assoc])
        (fun other member => usable other (mem_cons_of_mem _ member)), append_assoc]
      rfl

theorem length_usableRows_le (k shardLen : Nat) (rows received : List (Nat × List Byte)) :
    (usableRows k shardLen rows received).length ≤
      rows.length + (received.filter fun row => row.1 < 255).length := by
  induction received generalizing rows with
  | nil => exact Nat.le_add_right _ _
  | cons row rest ih =>
    obtain ⟨idx, bytes⟩ := row
    have longer : (rest.filter fun row => row.1 < 255).length ≤
        (((idx, bytes) :: rest).filter fun row => row.1 < 255).length :=
      ((sublist_cons_self _ _).filter _).length_le
    rw [usableRows]
    split
    · exact (ih rows).trans (Nat.add_le_add_left longer _)
    · next usable =>
      have low : idx < 255 := not_le.mp fun high => usable (Or.inl high)
      rw [filter_cons_of_pos (by simpa using low), length_cons]
      split
      · rw [length_append, length_singleton]
        omega
      · refine (ih _).trans ?_
        rw [length_append, length_singleton]
        omega

theorem decodeSource_eq_none {k shardLen : Nat} {received : List (Nat × List Byte)}
    (scheme : Scheme) (few : (received.filter fun row => row.1 < 255).length < k) :
    decodeSource k shardLen received scheme = none := by
  have short : (usableRows k shardLen [] received).length < k :=
    (length_usableRows_le k shardLen [] received).trans_lt (by simpa using few)
  rw [decodeSource, decodeSourceInto, if_neg (by rw [length_replicate]; exact lt_irrefl _)]
  rw [if_pos short]
  rfl

section Decode

variable {k shardLen : Nat} {original : Nat → Byte} {scheme : Scheme}

theorem copyRows_spec (original : Nat → Byte) (rows : List (Nat × List Byte)) (payload : List Byte)
    (length : payload.length = k * shardLen)
    (sources : ∀ row ∈ rows, row.1 < k ∧ row.2.length = shardLen ∧
      ∀ j < shardLen, row.2.getD j 0 = original (row.1 * shardLen + j)) :
    (copyRows shardLen rows payload).length = k * shardLen ∧
      ∀ i, i ∈ rows.map Prod.fst ∨
          (∀ j < shardLen, payload.getD (i * shardLen + j) 0 = original (i * shardLen + j)) →
        ∀ j < shardLen, (copyRows shardLen rows payload).getD (i * shardLen + j) 0 =
          original (i * shardLen + j) := by
  induction rows generalizing payload with
  | nil => exact ⟨length, fun i known => known.resolve_left not_mem_nil⟩
  | cons row rest ih =>
    obtain ⟨bound, rowLength, value⟩ := sources row mem_cons_self
    have fits := length ▸ block_le shardLen bound
    have copied := length_copyInto payload (row.1 * shardLen) row.2 (by rw [rowLength]; exact fits)
    obtain ⟨whole, blocks⟩ := ih _ (copied.trans length)
      fun other member => sources other (mem_cons_of_mem _ member)
    refine ⟨whole, fun i known => blocks i ?_⟩
    by_cases same : i = row.1
    · right
      intro j small
      rw [getD_copyInto_block rowLength fits small, if_pos same, same, value j small]
    · refine known.imp (fun member => ?_) fun agrees j small => ?_
      · exact (mem_cons.mp member).resolve_left same
      · rw [getD_copyInto_block rowLength fits small, if_neg same, agrees j small]

theorem decodeSourceInto_spec {rows : List (Nat × List Byte)} {outPayload : List Byte}
    (bound : k ≤ 255) (length : outPayload.length = k * shardLen)
    (usable : ∀ row ∈ rows, row.1 < 255)
    (carries : Carries k shardLen original scheme [] (rows.map asRepair)) :
    ∃ flat, decodeSourceInto k shardLen rows scheme outPayload = some flat ∧
      flat.length = k * shardLen ∧ ∀ i < k, ∀ j < shardLen,
        flat.getD (i * shardLen + j) 0 = original (i * shardLen + j) := by
  have empty : InPlace k shardLen original [] outPayload :=
    ⟨length, fun i _ set => by simp [isSet] at set⟩
  have count : rows.length = k := by simpa using carries.count
  have value : ∀ row ∈ rows, row.2.length = shardLen ∧ ∀ j < shardLen,
      row.2.getD j 0 = ∑ i : Fin k, generatorEntry scheme k row.1 i * original (i * shardLen + j) :=
    fun row member => carries.value outPayload empty _ (mem_map_of_mem member)
  have distinct : (rows.map Prod.fst).Nodup := by
    simpa [Function.comp_def, asRepair] using carries.distinct
  have kept : usableRows k shardLen [] rows = rows :=
    usableRows_eq [] rows (by simpa using count) distinct
      fun row member => ⟨usable row member, (value row member).1⟩
  unfold decodeSourceInto
  rw [if_neg (by rw [length]; exact lt_irrefl _)]
  dsimp only
  rw [kept, if_neg (by rw [count]; exact lt_irrefl _)]
  by_cases systematic : (rows.all fun row => decide (row.1 < k)) = true
  · rw [if_pos systematic]
    have low : ∀ row ∈ rows, row.1 < k := by simpa using systematic
    obtain ⟨whole, blocks⟩ := copyRows_spec original rows outPayload length
      fun row member => ⟨low row member, (value row member).1, fun j small => by
        rw [(value row member).2 j small, sum_generatorEntry_source (low row member)]⟩
    -- `k` distinct indices below `k` are all of them
    have covers : range k ⊆ rows.map Prod.fst := by
      have subset : rows.map Prod.fst ⊆ range k := by
        intro idx member
        obtain ⟨row, inRows, rfl⟩ := mem_map.mp member
        exact mem_range.mpr (low row inRows)
      have permuted := (subperm_of_subset distinct subset).perm_of_length_le (by simp [count])
      exact permuted.symm.subset
    exact ⟨_, rfl, whole, fun i small => blocks i (Or.inl (covers (mem_range.mpr small)))⟩
  · have valid := carries.no_invalid_row
    rw [List.any_map] at valid
    obtain ⟨inverse, inverted, solves⟩ := carries.invert_spec bound
    obtain ⟨whole, values⟩ := carries.restore_spec solves empty k le_rfl
    refine ⟨_, ?_, whole, fun i small => values i small (Or.inl small)⟩
    rw [if_neg systematic]
    refine (if_neg (ne_true_of_eq_false valid)).trans ?_
    rw [if_neg (by rw [count]; exact lt_irrefl _), inverted]
    rfl

end Decode

/-! ### A payload longer than the object -/

section Longer

variable {k shardLen : Nat} {original : Nat → Byte} {scheme : Scheme} {payload : List Byte}
  {seenMask : List (BitVec 64)} {repairShards : List (Nat × List Byte)}

theorem shardBytes_append {current rest : List Byte} {shard : ShardRef}
    (whole : (shardBytes current shardLen shard).length = shardLen) :
    shardBytes (current ++ rest) shardLen shard = shardBytes current shardLen shard := by
  cases shard with
  | source idx => exact slice_append whole
  | repair bytes => rfl

theorem Carries.restore_append {rows : List (Nat × ShardRef)}
    (carries : Carries k shardLen original scheme seenMask rows) {inverse : GaussJordan.Rows Byte k}
    (solves : Solves inverse scheme rows) (inPlace : InPlace k shardLen original seenMask payload)
    (rest : List Byte) (count : Nat) (bound : count ≤ k) :
    restore shardLen seenMask rows inverse (payload ++ rest) count =
      restore shardLen seenMask rows inverse payload count ++ rest := by
  induction count with
  | zero => rfl
  | succ count ih =>
    rw [restore, restore, ih (by omega), dif_pos (show count < k from bound),
      dif_pos (show count < k from bound)]
    by_cases present : isSet seenMask count = true
    · rw [if_pos present, if_pos present]
    · rw [if_neg present, if_neg present]
      obtain ⟨length, values⟩ := carries.restore_spec solves inPlace count (by omega)
      have reached : InPlace k shardLen original seenMask
          (restore shardLen seenMask rows inverse payload count) :=
        ⟨length, fun i small set => values i small (Or.inr set)⟩
      have same : ∀ row : Fin k, shardBytes
          (restore shardLen seenMask rows inverse payload count ++ rest) shardLen
            (rows.getD row (0, .repair [])).2 =
          shardBytes (restore shardLen seenMask rows inverse payload count) shardLen
            (rows.getD row (0, .repair [])).2 :=
        fun row => shardBytes_append (carries.value _ reached _ (carries.getD_mem row)).1
      simp only [same]
      refine copyInto_append ?_
      rw [(carries.recovered_shard solves reached ⟨count, bound⟩).1, length]
      exact block_le shardLen bound

theorem reconstructMissingSources_append (bound : k ≤ 255)
    (received : Received k shardLen original scheme payload seenMask repairShards)
    (rest : List Byte) :
    reconstructMissingSources k shardLen (payload ++ rest) seenMask repairShards scheme =
      (reconstructMissingSources k shardLen payload seenMask repairShards scheme).map
        (· ++ rest) := by
  obtain ⟨inverse, solves, reconstructed⟩ := received.reconstruct_eq bound
  rw [reconstructed payload received.length.ge, reconstructed (payload ++ rest) (by
    rw [length_append, received.length]; exact Nat.le_add_right _ _), Option.map_some,
    received.carries.restore_append solves ⟨received.length, received.sources⟩ rest k le_rfl]

end Longer

/-! ### Any `k` shards -/

section AnyShards

variable {scheme : Scheme} {source : List (List Byte)} {r shardLen : Nat}
  (equal : ∀ shard ∈ source, shard.length = shardLen)

def originalOf (source : List (List Byte)) (position : Nat) : Byte := source.flatten.getD position 0

include equal

theorem getD_shards (nonempty : source ≠ []) {idx : Nat} (bound : idx < source.length + r) :
    ((source ++ encodeRepair source r scheme).getD idx []).length = shardLen ∧
      ∀ j < shardLen, ((source ++ encodeRepair source r scheme).getD idx []).getD j 0 =
        ∑ i : Fin source.length, generatorEntry scheme source.length idx i *
          originalOf source (i * shardLen + j) := by
  by_cases low : idx < source.length
  · rw [getD_append _ _ _ _ low]
    refine ⟨?_, fun j small => ?_⟩
    · rw [getD_eq_getElem _ _ low]
      exact equal _ (getElem_mem low)
    · rw [sum_generatorEntry_source low, originalOf, getD_flatten equal idx small]
  · rw [getD_append_right _ _ _ _ (not_lt.mp low)]
    obtain ⟨length, value⟩ := encodeRepair_spec source shardLen r scheme nonempty equal
      (idx - source.length) (by omega)
    refine ⟨length, fun j small => ?_⟩
    rw [value j]
    refine Finset.sum_congr rfl fun i _ => ?_
    rw [generatorEntry, if_neg low, originalOf, getD_flatten equal i small]

theorem eq_flatten {flat : List Byte} (length : flat.length = source.length * shardLen)
    (values : ∀ i < source.length, ∀ j < shardLen,
      flat.getD (i * shardLen + j) 0 = originalOf source (i * shardLen + j)) :
    flat = source.flatten :=
  eq_of_blocks length (length_flatten_blocks equal) 0 values

section Chosen

variable (fits : source.length + r ≤ 255) (parity : scheme = .pq → r ≤ 2) {chosen : List Nat}
  (among : ∀ idx ∈ chosen, idx < source.length + r)

omit equal in
include fits parity among in
theorem chosen_lt_limit (idx : Nat) (member : idx ∈ chosen) :
    idx < source.length + scheme.repairLimit source.length := by
  have bound := among idx member
  cases scheme with
  | cauchy =>
    rw [Scheme.repairLimit]
    omega
  | pq =>
    have two := parity rfl
    rw [Scheme.repairLimit]
    omega

include fits parity among

theorem shardsAt_carries (count : chosen.length = source.length) (distinct : chosen.Nodup) :
    Carries source.length shardLen (originalOf source) scheme []
      ((shardsAt source r scheme chosen).map asRepair) := by
  have indices : ((shardsAt source r scheme chosen).map asRepair).map Prod.fst = chosen := by
    simp [shardsAt, asRepair, Function.comp_def]
  refine ⟨by simp [shardsAt, count], by rwa [indices], ?_, ?_⟩
  · intro row member
    refine chosen_lt_limit fits parity among row.1 ?_
    rw [← indices]
    exact mem_map_of_mem member
  · intro current _ row member
    obtain ⟨shard, inShards, rfl⟩ := mem_map.mp member
    obtain ⟨idx, inChosen, rfl⟩ := mem_map.mp inShards
    have nonempty : source ≠ [] := by
      rintro rfl
      rw [length_eq_zero_iff.mp count] at inChosen
      cases inChosen
    exact getD_shards equal nonempty (among idx inChosen)

theorem shardsAt_received (count : chosen.length = source.length) (distinct : chosen.Nodup)
    {payload : List Byte} {seenMask : List (BitVec 64)}
    (length : payload.length = source.length * shardLen)
    (mask : ∀ i < source.length, isSet seenMask i = true ↔ i ∈ chosen)
    (held : ∀ i ∈ chosen, i < source.length →
      slice payload (i * shardLen) shardLen = source.getD i []) :
    Received source.length shardLen (originalOf source) scheme payload seenMask
      (shardsAt source r scheme (chosen.filter fun idx => source.length ≤ idx)) := by
  have repair : ∀ shard ∈ shardsAt source r scheme (chosen.filter fun idx => source.length ≤ idx),
      ∃ idx ∈ chosen, source.length ≤ idx ∧
        shard = (idx, (source ++ encodeRepair source r scheme).getD idx []) := by
    refine forall_mem_map.mpr fun idx inFilter => ?_
    obtain ⟨inChosen, high⟩ := mem_filter.mp inFilter
    exact ⟨idx, inChosen, of_decide_eq_true high, rfl⟩
  have nonempty : ∀ idx ∈ chosen, source ≠ [] := by
    rintro idx inChosen rfl
    rw [length_eq_zero_iff.mp count] at inChosen
    cases inChosen
  refine ⟨length, ?_, ?_, ?_, ?_, ?_, ?_⟩
  · intro i small set j inside
    have block := held i ((mask i small).mp set) small
    rw [← getD_slice payload _ _ _ 0 inside, block, originalOf, getD_flatten equal i inside]
  · intro shard member
    obtain ⟨idx, inChosen, -, rfl⟩ := repair shard member
    exact (getD_shards equal (nonempty idx inChosen) (among idx inChosen)).1
  · intro shard member
    obtain ⟨idx, inChosen, high, rfl⟩ := repair shard member
    exact ⟨high, chosen_lt_limit fits parity among idx inChosen⟩
  · intro shard member j small
    obtain ⟨idx, inChosen, high, rfl⟩ := repair shard member
    rw [(getD_shards equal (nonempty idx inChosen) (among idx inChosen)).2 j small]
    simp only [generatorEntry, if_neg (not_lt.mpr high)]
  · simpa [shardsAt, Function.comp_def] using distinct.filter _
  · -- every chosen index is a present source or one of the repairs
    have present : chosen.filter (fun idx => ¬ source.length ≤ idx) ⊆
        presentSources source.length seenMask := by
      intro idx member
      obtain ⟨inChosen, low⟩ := mem_filter.mp member
      have small : idx < source.length := not_le.mp (of_decide_eq_true low)
      exact mem_presentSources.mpr ⟨small, (mask idx small).mpr inChosen⟩
    have sources := (subperm_of_subset (distinct.filter _) present).length_le
    have split := length_eq_length_filter_add (l := chosen)
      fun idx => decide (source.length ≤ idx)
    simp only [← decide_not] at split
    rw [shardsAt, length_map]
    omega

end Chosen

end AnyShards

/-- Any `k` distinct shards of an object, in any order, decode to its sources; the reconstruction
that finds the received sources in place restores the same bytes; the rows of the generator that
they are form an invertible matrix. -/
theorem any_distinct_shards_decode (scheme : Scheme) (source : List (List Byte)) (r shardLen : Nat)
    (equal : ∀ shard ∈ source, shard.length = shardLen) (fits : source.length + r ≤ 255)
    (parity : scheme = .pq → r ≤ 2) (chosen : List Nat) (count : chosen.length = source.length)
    (distinct : chosen.Nodup) (among : ∀ idx ∈ chosen, idx < source.length + r) :
    decodeSource source.length shardLen (shardsAt source r scheme chosen) scheme = some source ∧
      (∀ payload seenMask, source.length * shardLen ≤ payload.length →
        (∀ i < source.length, isSet seenMask i = true ↔ i ∈ chosen) →
        (∀ i ∈ chosen, i < source.length →
          slice payload (i * shardLen) shardLen = source.getD i []) →
        reconstructMissingSources source.length shardLen payload seenMask
            (shardsAt source r scheme (chosen.filter fun idx => source.length ≤ idx)) scheme =
          some (source.flatten ++ payload.drop (source.length * shardLen))) ∧
      IsUnit (Matrix.of fun row i : Fin source.length =>
        generatorEntry scheme source.length (chosen.getD row 0) i) := by
  have bound : source.length ≤ 255 := by omega
  refine ⟨?_, ?_, ?_⟩
  · have usable : ∀ row ∈ shardsAt source r scheme chosen, row.1 < 255 :=
      forall_mem_map.mpr fun idx inChosen => (among idx inChosen).trans_le fits
    obtain ⟨flat, decoded, length, values⟩ := decodeSourceInto_spec bound
      (length_replicate (a := 0)) usable
      (shardsAt_carries equal fits parity among count distinct)
    rw [decodeSource, decoded, Option.map_some, eq_flatten equal length values]
    refine congrArg some (ext_getElem (by simp) fun i _ inside => ?_)
    rw [getElem_map, getElem_range, slice_flatten equal inside]
    rfl
  · intro payload seenMask long mask held
    have object : (payload.take (source.length * shardLen)).length = source.length * shardLen := by
      rw [length_take, Nat.min_eq_left long]
    have received := shardsAt_received equal fits parity among count distinct object mask (by
      intro i inChosen small
      rw [← held i inChosen small]
      nth_rewrite 2 [← take_append_drop (source.length * shardLen) payload]
      exact (slice_append (length_slice _ _ _ (by
        rw [object]
        exact block_le shardLen small))).symm)
    obtain ⟨restored, reconstructed, length, values⟩ :=
      reconstructMissingSources_spec bound received
    nth_rewrite 1 [← take_append_drop (source.length * shardLen) payload]
    rw [reconstructMissingSources_append bound received, reconstructed, Option.map_some,
      eq_flatten equal length values]
  · have position : ∀ row : Fin source.length, (row : ℕ) < chosen.length :=
      fun row => by rw [count]; exact row.isLt
    refine ErasureCode.isUnit_of_mds (fun row : Fin source.length => chosen.getD row 0) ?_
      (fun m i => (repairRow scheme source.length m).getD i 0) _
      (repairRow_mds scheme source.length bound) ?_
    · intro first second same
      simp only [getD_eq_getElem _ _ (position _)] at same
      exact Fin.ext ((List.Nodup.getElem_inj_iff distinct).mp same)
    · intro row
      rw [getD_eq_getElem _ _ (position row)]
      exact chosen_lt_limit fits parity among _ (getElem_mem _)

/-- Two sources and the two rows of P+Q: the two repairs alone give the sources back. -/
theorem two_repairs_decode :
    decodeSource 2 1 (shardsAt [[Byte.ofNat 3], [Byte.ofNat 5]] 2 .pq [3, 2]) .pq =
      some [[Byte.ofNat 3], [Byte.ofNat 5]] :=
  (any_distinct_shards_decode .pq [[Byte.ofNat 3], [Byte.ofNat 5]] 2 1 (by decide) (by decide)
    (by decide) [3, 2] rfl (by decide) (by decide)).1

/-- With 254 sources the Q row has the index 255, which the decoder drops. -/
theorem last_parity_dropped :
    (List.range' 2 254).length = 254 ∧ (List.range' 2 254).Nodup ∧
      (∀ idx ∈ List.range' 2 254, idx < 254 + 2) ∧
      decodeSource 254 1 (shardsAt (List.replicate 254 [0]) 2 .pq (List.range' 2 254)) .pq =
        none := by
  refine ⟨length_range', nodup_range', by simp, decodeSource_eq_none .pq ?_⟩
  rw [shardsAt, filter_map, length_map]
  decide +kernel

end Yip.Transport.Rs
