/-
This file is about an object whose symbols reach the reassembler in two symbol sizes, as when a
resend follows a change of the path MTU.
-/

import Yip.Transport.Objects

namespace Yip.Transport

open ArrayList Rs FecEncoder List

/-! ### Two splittings of one object -/

section Splittings

variable {objectSize size other index : Nat}

/-- Both sizes cut the object alike. -/
def SameShape (objectSize size other : Nat) : Prop :=
  sourceCount objectSize size = sourceCount objectSize other ∧
    shardLen objectSize size = shardLen objectSize other

/-- A shard cut with the other size that passes for one of this size. -/
def Stray (objectSize size other index : Nat) : Prop :=
  (other < size ∧ size < objectSize ∧ objectSize % size = other ∧
      index = sourceCount objectSize size - 1) ∨
    (size < other ∧ other < objectSize ∧ objectSize % other = size ∧
      index = sourceCount objectSize other - 1)

theorem mod_eq_of_last (nonempty : 0 < objectSize) (positive : 0 < size)
    (last : objectSize - (sourceCount objectSize size - 1) * size = other) (less : other < size) :
    objectSize % size = other := by
  have before := (shape objectSize size nonempty positive).2.1
  have cut : objectSize = (sourceCount objectSize size - 1) * size + other := by omega
  rw [cut, Nat.mul_comm, Nat.mul_add_mod, Nat.mod_eq_of_lt less]

theorem sameShape_or_stray (nonempty : 0 < objectSize) (positive : 0 < size)
    (otherPositive : 0 < other)
    (equal : wireLen (sourceCount objectSize size) (shardLen objectSize size) objectSize index =
      wireLen (sourceCount objectSize other) (shardLen objectSize other) objectSize index) :
    SameShape objectSize size other ∨ Stray objectSize size other index := by
  obtain ⟨some, before, after⟩ := shape objectSize size nonempty positive
  obtain ⟨otherSome, otherBefore, otherAfter⟩ := shape objectSize other nonempty otherPositive
  have lastLe : objectSize - (sourceCount objectSize size - 1) * size ≤ size := by
    have cut := Nat.succ_mul (sourceCount objectSize size - 1) size
    rw [Nat.succ_eq_add_one, Nat.sub_add_cancel some] at cut
    omega
  have otherLastLe : objectSize - (sourceCount objectSize other - 1) * other ≤ other := by
    have cut := Nat.succ_mul (sourceCount objectSize other - 1) other
    rw [Nat.succ_eq_add_one, Nat.sub_add_cancel otherSome] at cut
    omega
  have whole : ∀ size, 0 < size → sourceCount objectSize size = 1 →
      wireLen (sourceCount objectSize size) (shardLen objectSize size) objectSize index =
        objectSize := by
    intro size positive one
    rw [shardLen_of_one nonempty positive one, one, wireLen, Nat.sub_self, Nat.zero_mul,
      Nat.sub_zero, ite_self]
  have part : ∀ size, 0 < size → sourceCount objectSize size ≠ 1 → size < objectSize := by
    intro size positive several
    have large := mt (sourceCount_eq_one_iff objectSize size nonempty positive).mpr several
    omega
  by_cases one : sourceCount objectSize size = 1 <;>
    by_cases otherOne : sourceCount objectSize other = 1
  · left
    exact ⟨one.trans otherOne.symm, by
      rw [shardLen_of_one nonempty positive one, shardLen_of_one nonempty otherPositive otherOne]⟩
  · have less := part other otherPositive otherOne
    rw [whole size positive one, shardLen_of_several nonempty otherPositive otherOne,
      wireLen] at equal
    split at equal <;> omega
  · have less := part size positive one
    rw [whole other otherPositive otherOne, shardLen_of_several nonempty positive one,
      wireLen] at equal
    split at equal <;> omega
  rw [shardLen_of_several nonempty positive one,
    shardLen_of_several nonempty otherPositive otherOne, wireLen, wireLen] at equal
  have same : size = other → SameShape objectSize size other := fun equal => by
    rw [equal]
    exact ⟨rfl, rfl⟩
  split at equal
  · rename_i isLast
    split at equal
    · -- both are the last symbol
      rename_i isOtherLast
      left
      apply same
      have factor : (sourceCount objectSize size - 1) * size =
          (sourceCount objectSize size - 1) * other := by
        rw [← isLast, isOtherLast]
        rw [← isLast, isOtherLast] at before equal
        omega
      exact Nat.eq_of_mul_eq_mul_left (by omega) factor
    · rename_i notOtherLast
      by_cases equalSize : size = other
      · exact Or.inl (same equalSize)
      · have less : other < size := by omega
        exact Or.inr (Or.inl ⟨less, part size positive one,
          mod_eq_of_last nonempty positive equal less, isLast⟩)
  · split at equal
    · rename_i isOtherLast
      by_cases equalSize : size = other
      · exact Or.inl (same equalSize)
      · have less : size < other := by omega
        exact Or.inr (Or.inr ⟨less, part other otherPositive otherOne,
          mod_eq_of_last nonempty otherPositive equal.symm less, isOtherLast⟩)
    · exact Or.inl (same equal)

theorem strays_few (nonempty : 0 < objectSize) (positive : 0 < size) {first second : Nat}
    {indices : List Nat} (distinct : indices.Nodup)
    (strays : ∀ index ∈ indices,
      Stray objectSize size first index ∨ Stray objectSize size second index) :
    indices.length < sourceCount objectSize size := by
  obtain ⟨some, before, after⟩ := shape objectSize size nonempty positive
  -- the place of a stray index depends on the other size only
  have place : ∀ index other, Stray objectSize size other index →
      index = if other < size then sourceCount objectSize size - 1
        else sourceCount objectSize other - 1 := by
    rintro index other (⟨less, _, _, isLast⟩ | ⟨less, _, _, isLast⟩)
    · rw [if_pos less, isLast]
    · rw [if_neg (by omega), isLast]
  by_cases two : sourceCount objectSize size ≤ 2
  · have last : ∀ index other, Stray objectSize size other index →
        index = sourceCount objectSize size - 1 ∧ size < objectSize := by
      rintro index other (⟨_, part, _, isLast⟩ | ⟨less, part, leaves, _⟩)
      · exact ⟨isLast, part⟩
      · -- then the object is longer than twice the size
        have cut := Nat.div_add_mod objectSize other
        have quotient : 1 ≤ objectSize / other := Nat.div_pos part.le (by omega)
        have whole : other * 1 ≤ other * (objectSize / other) := Nat.mul_le_mul_left _ quotient
        have twice : sourceCount objectSize size * size ≤ 2 * size := Nat.mul_le_mul_right _ two
        omega
    have single : indices ⊆ [sourceCount objectSize size - 1] := by
      intro index member
      rcases strays index member with stray | stray
      · exact mem_singleton.mpr (last index first stray).1
      · exact mem_singleton.mpr (last index second stray).1
    have atMost : indices.length ≤ 1 := (distinct.subperm single).length_le
    rcases indices with _ | ⟨index, rest⟩
    · exact some
    · have part : size < objectSize := by
        rcases strays index mem_cons_self with stray | stray
        · exact (last index first stray).2
        · exact (last index second stray).2
      have several := mt (sourceCount_eq_one_iff objectSize size nonempty positive).mp
        (not_le.mpr part)
      omega
  · have pair : indices ⊆ [if first < size then sourceCount objectSize size - 1
        else sourceCount objectSize first - 1, if second < size then sourceCount objectSize size - 1
        else sourceCount objectSize second - 1] := by
      intro index member
      rcases strays index member with stray | stray
      · rw [place index first stray]
        exact mem_cons_self
      · rw [place index second stray]
        exact mem_cons_of_mem _ mem_cons_self
    have atMost : indices.length ≤ 2 := (distinct.subperm pair).length_le
    omega

/-- Two sizes of which one is the rest the other leaves. -/
def Confusable (first second objectSize : Nat) : Prop :=
  0 < min first second ∧ min first second < max first second ∧ max first second < objectSize ∧
    objectSize % max first second = min first second ∧
    sourceCount objectSize (min first second) < 255 ∧ objectSize ≤ maxObjectSize

instance (first second objectSize : Nat) : Decidable (Confusable first second objectSize) :=
  inferInstanceAs (Decidable (_ ∧ _ ∧ _ ∧ _ ∧ _ ∧ _))

theorem Stray.confusable {first second : Nat} (stray : Stray objectSize first second index)
    (positive : 0 < first) (otherPositive : 0 < second)
    (room : sourceCount objectSize first < 255) (otherRoom : sourceCount objectSize second < 255)
    (small : objectSize ≤ maxObjectSize) : Confusable first second objectSize := by
  unfold Confusable
  rcases stray with ⟨less, part, leaves, _⟩ | ⟨less, part, leaves, _⟩
  · rw [max_eq_left less.le, min_eq_right less.le]
    exact ⟨otherPositive, less, part, leaves, otherRoom, small⟩
  · rw [max_eq_right less.le, min_eq_left less.le]
    exact ⟨positive, less, part, leaves, room, small⟩

theorem Confusable.comm {first second : Nat} :
    Confusable first second objectSize ↔ Confusable second first objectSize := by
  unfold Confusable
  rw [max_comm, min_comm]

theorem SameShape.eq_of_part (same : SameShape objectSize size other) (nonempty : 0 < objectSize)
    (positive : 0 < size) (part : size < objectSize) : size = other := by
  have otherPositive : 0 < other := by
    rw [Nat.pos_iff_ne_zero]
    rintro rfl
    have none : sourceCount objectSize size = 0 := same.1.trans (if_pos rfl)
    exact (shape objectSize size nonempty positive).1.ne' none
  have several := mt (sourceCount_eq_one_iff objectSize size nonempty positive).mp (not_le.mpr part)
  have otherSeveral : sourceCount objectSize other ≠ 1 := same.1 ▸ several
  have equal := same.2
  rwa [shardLen_of_several nonempty positive several,
    shardLen_of_several nonempty otherPositive otherSeveral] at equal

end Splittings

/-! ### Honest symbols -/

def Honest (ciphertext : List Byte) (size : Nat) (symbol : Symbol) : Prop :=
  ∃ params objectId repair, params.symbolSize = size ∧
    symbol ∈ build ciphertext params objectId repair

theorem IsShard.length_eq {ciphertext data : List Byte} {k shardLen index : Nat} {scheme : Scheme}
    (shard : IsShard ciphertext k shardLen scheme index data) (some : 0 < k) :
    data.length = wireLen k shardLen ciphertext.length index := by
  by_cases isSource : index < k
  · exact (shard.source isSource).1
  · rw [(shard.repair (not_lt.mp isSource)).1, wireLen, if_neg (by omega)]

theorem Honest.spec {ciphertext : List Byte} {size : Nat} {symbol : Symbol}
    (honest : Honest ciphertext size symbol) :
    (0 < ciphertext.length ∧ 0 < size ∧ sourceCount ciphertext.length size < 255) ∧
      symbol.objectSize = ciphertext.length ∧
      ∃ index scheme, parsePayloadId symbol.payloadId = some (index, scheme) ∧
        IsShard ciphertext (sourceCount ciphertext.length size) (shardLen ciphertext.length size)
          scheme index symbol.data := by
  obtain ⟨params, objectId, repair, rfl, member⟩ := honest
  have built : build ciphertext params objectId repair ≠ [] := ne_nil_of_mem member
  have bounds : 0 < ciphertext.length ∧ 0 < params.symbolSize ∧
      sourceCount ciphertext.length params.symbolSize < 255 := by
    unfold build at built
    dsimp only at built
    split at built
    · exact absurd rfl built
    · rename_i sized
      split at built
      · exact absurd rfl built
      · rename_i inRange
        refine ⟨Nat.pos_of_ne_zero fun empty => inRange (Or.inl ?_), Nat.pos_of_ne_zero sized,
          by omega⟩
        rw [empty, sourceCount, if_neg sized, Nat.zero_add,
          Nat.div_eq_of_lt (Nat.sub_lt (Nat.pos_of_ne_zero sized) Nat.one_pos)]
  obtain ⟨nonempty, positive, room⟩ := bounds
  obtain ⟨shard, listed, shards⟩ := build_spec ciphertext params objectId repair nonempty positive
    room _ rfl
  rw [listed] at member
  obtain ⟨index, inRange, rfl⟩ := mem_map.mp member
  have bound := mem_range.mp inRange
  have indices := (codingFor_valid nonempty positive room : (codingFor ciphertext.length params
    repair).Valid ciphertext).indices
  exact ⟨⟨nonempty, positive, room⟩, rfl, index, _, parsePayloadId_pack _ _ (by omega),
    shards index bound⟩

/-! ### What an object in flight can be -/

section Mixed

variable (ciphertext : List Byte) (first second : Nat)

/-- What is collected is of the ciphertext, or cannot be completed by its symbols. -/
structure Uncorrupted (state : ObjState) (size : Nat) : Prop where
  objectSize_eq : state.objectSize = ciphertext.length
  shaped : state.Shaped size
  phase : state.done = true ∨
    ((SameShape ciphertext.length size first ∨ SameShape ciphertext.length size second) ∧
      ∃ seen, Collecting ciphertext state seen) ∨
    (¬ SameShape ciphertext.length size first ∧ ¬ SameShape ciphertext.length size second ∧
      ∃ seen, Pending state seen ∧ ∀ index ∈ seen,
        Stray ciphertext.length size first index ∨ Stray ciphertext.length size second index)

variable {ciphertext first second}

theorem uncorrupted_fresh {incoming : FecReassembler.Incoming} {nowMs deadlineMs size : Nat}
    (shaped : (FecReassembler.fresh incoming ciphertext.length nowMs deadlineMs).Shaped size) :
    Uncorrupted ciphertext first second
      (FecReassembler.fresh incoming ciphertext.length nowMs deadlineMs) size := by
  have some : 0 < incoming.k := (shaped.valid rfl).some
  refine ⟨rfl, shaped, Or.inr ?_⟩
  by_cases same : SameShape ciphertext.length size first ∨ SameShape ciphertext.length size second
  · exact Or.inl ⟨same, [], collecting_fresh incoming nowMs deadlineMs some⟩
  · exact Or.inr ⟨fun isFirst => same (Or.inl isFirst), fun isSecond => same (Or.inr isSecond), [],
      pending_fresh incoming _ nowMs deadlineMs some, by simp⟩

theorem sameShape_of_fit (apart : ¬ Confusable first second ciphertext.length)
    (small : ciphertext.length ≤ maxObjectSize) {size own index : Nat}
    (nonempty : 0 < ciphertext.length) (positive : 0 < size)
    (room : sourceCount ciphertext.length size < 255) (ownPositive : 0 < own)
    (ownRoom : sourceCount ciphertext.length own < 255) (isOwn : own = first ∨ own = second)
    (theirs : SameShape ciphertext.length size first ∨ SameShape ciphertext.length size second)
    (fits : SameShape ciphertext.length size own ∨ Stray ciphertext.length size own index) :
    SameShape ciphertext.length size own := by
  refine fits.resolve_right fun stray => ?_
  have part : size < ciphertext.length := by
    rcases stray with ⟨_, part, _, _⟩ | ⟨less, part, _, _⟩ <;> omega
  have confusable := stray.confusable positive ownPositive room ownRoom small
  have differ : size ≠ own := by
    rcases stray with ⟨less, _, _, _⟩ | ⟨less, _, _, _⟩ <;> omega
  rcases theirs with same | same
  · obtain rfl := same.eq_of_part nonempty positive part
    obtain rfl := isOwn.resolve_left (Ne.symm differ)
    exact apart confusable
  · obtain rfl := same.eq_of_part nonempty positive part
    obtain rfl := isOwn.resolve_right (Ne.symm differ)
    exact apart (Confusable.comm.mp confusable)

theorem Uncorrupted.ingest {state : ObjState} {size own : Nat}
    (uncorrupted : Uncorrupted ciphertext first second state size)
    (apart : ¬ Confusable first second ciphertext.length)
    (small : ciphertext.length ≤ maxObjectSize) (isOwn : own = first ∨ own = second)
    (ownPositive : 0 < own) (ownRoom : sourceCount ciphertext.length own < 255)
    {index : Nat} {scheme : Scheme} {data : List Byte} (nowMs : Nat)
    (shard : IsShard ciphertext (sourceCount ciphertext.length own)
      (shardLen ciphertext.length own) scheme index data)
    (bound : scheme = state.scheme → index < state.k + state.coding.repairs)
    (length : data.length = wireLen state.k state.shardLen state.objectSize index) :
    Uncorrupted ciphertext first second (state.ingest index scheme data nowMs).1 size ∧
      ∀ object, (state.ingest index scheme data nowMs).2.1 = some object →
        object = ciphertext := by
  obtain ⟨sizeEq, shaped, phase⟩ := uncorrupted
  have alike := alike_ingest state index scheme data nowMs
  have keeps := fun phase => (⟨alike.objectSize_eq.trans sizeEq, alike.shaped shaped, phase⟩ :
    Uncorrupted ciphertext first second (state.ingest index scheme data nowMs).1 size)
  have nonempty : 0 < ciphertext.length := sizeEq ▸ shaped.nonempty
  have kEq : state.k = sourceCount ciphertext.length size := by rw [shaped.k_eq, sizeEq]
  have lenEq : state.shardLen = shardLen ciphertext.length size := by
    rw [shaped.shardLen_eq, sizeEq]
  have fits : SameShape ciphertext.length size own ∨ Stray ciphertext.length size own index := by
    apply sameShape_or_stray nonempty shaped.positive ownPositive
    rw [← kEq, ← lenEq, ← sizeEq, ← length, sizeEq]
    exact shard.length_eq (shape _ _ nonempty ownPositive).1
  rcases phase with done | ⟨theirs, seen, collecting⟩ | ⟨notFirst, notSecond, seen, pending, strays⟩
  · obtain ⟨still, nothing⟩ := ingest_of_done done index scheme data nowMs
    exact ⟨keeps (Or.inl still), by simp [nothing]⟩
  · have same : SameShape ciphertext.length size own :=
      sameShape_of_fit apart small nonempty shaped.positive (kEq ▸ shaped.room) ownPositive ownRoom
        isOwn theirs fits
    have isShard : IsShard ciphertext state.k state.shardLen scheme index data := by
      rw [kEq, lenEq, same.1, same.2]
      exact shard
    rcases collecting.ingest (shaped.valid sizeEq.symm) nowMs fun equal =>
        ⟨bound equal, isShard⟩ with
      ⟨_, done, nothing⟩ | ⟨done, object, _⟩ | ⟨nothing, seen', goesOn, _⟩
    · exact ⟨keeps (Or.inl done), by simp [nothing]⟩
    · refine ⟨keeps (Or.inl done), fun found returned => ?_⟩
      rw [object] at returned
      exact (Option.some.inj returned).symm
    · exact ⟨keeps (Or.inr (Or.inl ⟨theirs, seen', goesOn⟩)), by simp [nothing]⟩
  · have stray : Stray ciphertext.length size first index ∨
        Stray ciphertext.length size second index := by
      rcases isOwn with rfl | rfl
      · exact Or.inl (fits.resolve_left notFirst)
      · exact Or.inr (fits.resolve_left notSecond)
    have allStrays : ∀ seen' : List Nat, (∀ other ∈ seen', other ∈ seen ∨ other = index) →
        ∀ other ∈ seen', Stray ciphertext.length size first other ∨
          Stray ciphertext.length size second other := by
      intro seen' grown other member
      rcases grown other member with old | rfl
      · exact strays other old
      · exact stray
    rcases pending.ingest shaped nowMs bound length with
      ⟨_, done, nothing⟩ | ⟨_, _, new, last⟩ | ⟨nothing, seen', goesOn, grown⟩
    · exact ⟨keeps (Or.inl done), by simp [nothing]⟩
    · -- the strays alone are never enough
      have distinct : (seen ++ [index]).Nodup := by
        rw [← concat_eq_append, nodup_concat]
        exact ⟨new, pending.collected.distinct⟩
      have few := strays_few nonempty shaped.positive distinct
        (allStrays _ fun other member => by simpa using member)
      rw [length_append, length_singleton, last, kEq] at few
      exact absurd few (lt_irrefl _)
    · exact ⟨keeps (Or.inr (Or.inr ⟨notFirst, notSecond, seen', goesOn, allStrays seen' grown⟩)),
        by simp [nothing]⟩

/-! ### Runs -/

open FecReassembler

def FecReassembler.Event.Genuine (ciphertext : List Byte) (objectKey first second : Nat) :
    Event → Prop
  | .push key symbol _ _ =>
    key = objectKey → Honest ciphertext first symbol ∨ Honest ciphertext second symbol
  | .setSymbolSize _ => True

def Sincere (ciphertext : List Byte) (first second objectKey : Nat) (re : FecReassembler) : Prop :=
  ∀ state, re.objects.lookup objectKey = some state →
    ∃ size, Uncorrupted ciphertext first second state size

theorem Sincere.push_own {objectKey : Nat} {re : FecReassembler}
    (sincere : Sincere ciphertext first second objectKey re)
    (apart : ¬ Confusable first second ciphertext.length) {symbol : Symbol} {own : Nat}
    (isOwn : own = first ∨ own = second) (honest : Honest ciphertext own symbol)
    (nowMs deadlineMs : Nat) :
    Sincere ciphertext first second objectKey (re.push objectKey symbol nowMs deadlineMs).1 ∧
      ∀ object, (re.push objectKey symbol nowMs deadlineMs).2 = some object →
        object = ciphertext := by
  rcases push_cases re objectKey symbol nowMs deadlineMs with
    ⟨_, same⟩ | ⟨incoming, dropped, accepted, _, _, inFlight, _, output⟩
  · rw [same]
    exact ⟨sincere, by simp⟩
  obtain ⟨⟨_, ownPositive, ownRoom⟩, objectSize, index, scheme, parsed, shard⟩ := honest.spec
  obtain ⟨⟨_, small, _⟩, parsedToo, _⟩ := accept_spec accepted
  rw [parsed] at parsedToo
  obtain ⟨rfl, rfl⟩ := Prod.mk.inj (Option.some.inj parsedToo)
  obtain ⟨size, shaped, startSize, _, bound, length⟩ := accepted_fits accepted
    (fun state holds => (sincere state holds).imp fun _ uncorrupted => uncorrupted.shaped)
    nowMs deadlineMs
  have started : ∃ size, Uncorrupted ciphertext first second
      (re.start objectKey incoming symbol.objectSize nowMs deadlineMs) size := by
    unfold FecReassembler.start at shaped ⊢
    cases known : re.objects.lookup objectKey with
    | some state => exact sincere state known
    | none =>
      rw [known, objectSize] at shaped
      rw [objectSize]
      exact ⟨size, uncorrupted_fresh shaped⟩
  obtain ⟨size, uncorrupted⟩ := started
  rw [objectSize] at small
  obtain ⟨still, returned⟩ := uncorrupted.ingest apart small isOwn ownPositive ownRoom nowMs shard
    bound (length.trans (congrArg (wireLen _ _ · _) startSize.symm))
  rw [output]
  refine ⟨fun state holds => ⟨size, ?_⟩, returned⟩
  rw [inFlight] at holds
  exact Option.some.inj holds ▸ still

theorem Sincere.step {objectKey : Nat} {re : FecReassembler}
    (sincere : Sincere ciphertext first second objectKey re)
    (apart : ¬ Confusable first second ciphertext.length) {event : Event}
    (genuine : event.Genuine ciphertext objectKey first second) :
    Sincere ciphertext first second objectKey (re.step event) := by
  cases event with
  | setSymbolSize size => exact sincere
  | push key symbol nowMs deadlineMs =>
    by_cases own : key = objectKey
    · subst own
      rcases genuine rfl with honest | honest
      · exact (sincere.push_own apart (Or.inl rfl) honest nowMs deadlineMs).1
      · exact (sincere.push_own apart (Or.inr rfl) honest nowMs deadlineMs).1
    · intro state holds
      rcases push_cases re key symbol nowMs deadlineMs with
        ⟨_, same⟩ | ⟨_, dropped, _, drops, _, _, others, _⟩
      · rw [FecReassembler.step, same] at holds
        exact sincere state holds
      · rw [FecReassembler.step, others objectKey (Ne.symm own)] at holds
        exact sincere state (drops.lookup.2 objectKey state holds)

end Mixed

/-! ### Confusion -/

section Confusion

variable {large small objectSize : Nat}

theorem eq_replicate_of_getD {data : List Byte} (zeros : ∀ j < data.length, data.getD j 0 = 0) :
    data = List.replicate data.length 0 := by
  apply ext_getElem
  · rw [length_replicate]
  · intro j inside _
    rw [getElem_replicate, ← zeros j inside, getD_eq_getElem _ _ inside]

def zeroSymbol (objectSize size index : Nat) : Symbol :=
  symbol 0 objectSize index .cauchy (List.replicate size 0)

section Zeros

variable {ciphertext : List Byte} (length : ciphertext.length = objectSize) {size : Nat}
  (nonempty : 0 < objectSize) (positive : 0 < size) (room : sourceCount objectSize size < 255)
  (several : sourceCount objectSize size ≠ 1) (fits : objectSize ≤ maxObjectSize)

include length nonempty positive room several fits

theorem zeroSymbols_built :
    ∃ parcel : Parcel, parcel.ciphertext = ciphertext ∧ parcel.symbolSize = size ∧
      (∀ index < parcel.count, parcel.symbol index ∈ build ciphertext ⟨size, 0, true⟩ 0 0) ∧
      ∀ index < sourceCount objectSize size,
        (∀ j < size, ciphertext.getD (index * size + j) 0 = 0) →
        parcel.symbol index = zeroSymbol objectSize
          (if index = sourceCount objectSize size - 1 then
            objectSize - (sourceCount objectSize size - 1) * size else size) index := by
  subst length
  obtain ⟨parcel, rfl, isId, rfl, isCauchy, built⟩ :=
    exists_parcel 0 nonempty fits positive room positive
      (rfl : codingFor ciphertext.length ⟨size, 0, true⟩ 0 = _)
  refine ⟨parcel, rfl, rfl, fun index bound => ?_, fun index bound zeros => ?_⟩
  · rw [built]
    exact mem_map_of_mem (mem_range.mpr bound)
  · rw [← parcel.k_eq] at bound
    obtain ⟨shardLength, values⟩ := (parcel.shards index (by omega)).source bound
    have upper := wireLen_le parcel.valid index
    rw [← shardLength] at upper
    rw [wireLen] at shardLength
    have whole : parcel.coding.shardLen = parcel.symbolSize :=
      parcel.shardLen_eq.trans (shardLen_of_several nonempty positive several)
    rw [whole] at shardLength values upper
    have equal := eq_replicate_of_getD fun j inside =>
      (values j inside).trans (zeros j (inside.trans_le upper))
    rw [shardLength, parcel.k_eq] at equal
    rw [Parcel.symbol, zeroSymbol, equal, isId, isCauchy]
    rfl

theorem zeroSymbol_honest {index : Nat} (early : index < sourceCount objectSize size - 1)
    (zeros : ∀ j < size, ciphertext.getD (index * size + j) 0 = 0) :
    Honest ciphertext size (zeroSymbol objectSize size index) := by
  obtain ⟨parcel, rfl, rfl, built, equal⟩ :=
    zeroSymbols_built length nonempty positive room several fits
  have same := equal index (by omega) zeros
  rw [if_neg (by omega)] at same
  refine ⟨⟨parcel.symbolSize, 0, true⟩, 0, 0, rfl, ?_⟩
  rw [← same]
  refine built index ?_
  have k_eq := parcel.k_eq
  rw [length] at k_eq
  unfold Parcel.count
  omega

end Zeros

def marked (objectSize : Nat) : List Byte := List.replicate (objectSize - 1) 0 ++ [1]

theorem length_marked (nonempty : 0 < objectSize) : (marked objectSize).length = objectSize := by
  rw [marked, length_append, length_replicate, length_singleton]
  omega

theorem getD_marked {j : Nat} (early : j < objectSize - 1) : (marked objectSize).getD j 0 = 0 := by
  rw [marked, getD_append _ _ _ _ (by rwa [length_replicate]),
    getD_replicate 0 early]

section Run

variable (positive : 0 < small) (less : small < large) (part : large < objectSize)
  (leaves : objectSize % large = small)

include positive less part leaves

theorem last_of_large :
    (sourceCount objectSize large - 1) * large + small = objectSize ∧
      2 ≤ sourceCount objectSize large ∧
      sourceCount objectSize large < sourceCount objectSize small := by
  have nonempty : 0 < objectSize := by omega
  obtain ⟨some, before, after⟩ := shape objectSize large nonempty (by omega)
  obtain ⟨smallSome, smallBefore, smallAfter⟩ := shape objectSize small nonempty positive
  have several := mt (sourceCount_eq_one_iff objectSize large nonempty (by omega)).mp
    (not_le.mpr part)
  have cut := Nat.div_add_mod objectSize large
  have top := Nat.succ_mul (sourceCount objectSize large - 1) large
  rw [Nat.succ_eq_add_one, Nat.sub_add_cancel some] at top
  have quotient : objectSize / large = sourceCount objectSize large - 1 := by
    apply Nat.div_eq_of_lt_le
    · exact before.le
    · rw [Nat.sub_add_cancel some]
      refine lt_of_le_of_ne after fun equal => ?_
      rw [equal, Nat.mul_mod_left] at leaves
      omega
  rw [leaves, quotient, Nat.mul_comm] at cut
  refine ⟨cut, by omega, ?_⟩
  by_contra notLess
  have fewer : sourceCount objectSize small * small ≤ sourceCount objectSize large * small :=
    Nat.mul_le_mul_right _ (by omega)
  have shorter : (sourceCount objectSize large - 1) * small <
      (sourceCount objectSize large - 1) * large := Nat.mul_lt_mul_of_pos_left less (by omega)
  have smallTop := Nat.succ_mul (sourceCount objectSize large - 1) small
  rw [Nat.succ_eq_add_one, Nat.sub_add_cancel some] at smallTop
  omega

theorem confused_honest (room : sourceCount objectSize small < 255)
    (fits : objectSize ≤ maxObjectSize) :
    (∀ index < sourceCount objectSize large - 1,
        Honest (marked objectSize) large (zeroSymbol objectSize large index)) ∧
      Honest (marked objectSize) small
        (zeroSymbol objectSize small (sourceCount objectSize large - 1)) := by
  obtain ⟨cut, several, more⟩ := last_of_large positive less part leaves
  have length : (marked objectSize).length = objectSize := length_marked (by omega)
  constructor
  · intro index early
    have before : (index + 1) * large ≤ (sourceCount objectSize large - 1) * large :=
      Nat.mul_le_mul_right _ early
    rw [Nat.succ_mul] at before
    exact zeroSymbol_honest length (by omega) (by omega) (by omega) (by omega) fits early
      fun j inside => getD_marked (by omega)
  · have before := (shape objectSize small (by omega) positive).2.1
    have fewer : (sourceCount objectSize large - 1 + 1) * small ≤
        (sourceCount objectSize small - 1) * small := Nat.mul_le_mul_right _ (by omega)
    rw [Nat.succ_mul] at fewer
    exact zeroSymbol_honest length (by omega) positive room (by omega) fits (by omega)
      fun j inside => getD_marked (by omega)

theorem confused_run (room : sourceCount objectSize small < 255)
    (fits : objectSize ≤ maxObjectSize) :
    ((feed 0 0 (FecReassembler.new large 1) ((List.range (sourceCount objectSize large - 1)).map
          fun index => (zeroSymbol objectSize large index, 0))).push 0
        (zeroSymbol objectSize small (sourceCount objectSize large - 1)) 0 0).2 =
      some (List.replicate objectSize 0) := by
  obtain ⟨cut, several, more⟩ := last_of_large positive less part leaves
  obtain ⟨parcel, isZero, rfl, -, equal⟩ := zeroSymbols_built (@length_replicate _ objectSize
    (0 : Byte)) (by omega) (by omega) (by omega : sourceCount objectSize large < 255) (by omega)
    fits
  have k_eq := parcel.k_eq
  rw [isZero, length_replicate] at k_eq
  have zero : ∀ index < sourceCount objectSize parcel.symbolSize - 1, parcel.symbol index =
      zeroSymbol objectSize parcel.symbolSize index := by
    intro index bound
    rw [equal index (by omega) fun j _ => by simp, if_neg (by omega)]
  have last : parcel.symbol (sourceCount objectSize parcel.symbolSize - 1) =
      zeroSymbol objectSize small (sourceCount objectSize parcel.symbolSize - 1) := by
    rw [equal _ (by omega) fun j _ => by simp, if_pos rfl]
    congr 1
    omega
  have times : Timely parcel 0 0 ((range (sourceCount objectSize parcel.symbolSize - 1)).map
      fun index => (zeroSymbol objectSize parcel.symbolSize index, 0)) := by
    refine ⟨fun arrival member => ?_, fun arrival isHead => ?_, fun arrival member => ?_⟩
    · obtain ⟨index, inRange, rfl⟩ := mem_map.mp member
      have early := mem_range.mp inRange
      exact ⟨index, by unfold Parcel.count; omega, (zero index early).symm⟩
    · obtain ⟨index, _, rfl⟩ := mem_map.mp (mem_of_head? isHead)
      rfl
    · obtain ⟨index, _, rfl⟩ := mem_map.mp member
      exact Nat.zero_le _
  have result := (push_honest (after_feed 1 0 times) (fun _ => rfl) (Nat.zero_le _)
    (by unfold Parcel.count; omega :
      sourceCount objectSize parcel.symbolSize - 1 < parcel.count)).2
  rw [last] at result
  rw [result, map_map, isZero]
  refine if_pos ⟨fun member => ?_, ?_⟩
  · obtain ⟨index, inRange, same⟩ := mem_map.mp member
    have early := mem_range.mp inRange
    have equalIndex := symbol_index_injective (by omega) (by omega) same
    omega
  · have distinct : ((range (sourceCount objectSize parcel.symbolSize - 1)).map
        (Prod.fst ∘ fun index => (zeroSymbol objectSize parcel.symbolSize index, 0))).Nodup :=
      nodup_range.map_on fun first firstIn second secondIn same => by
        have := mem_range.mp firstIn
        have := mem_range.mp secondIn
        exact symbol_index_injective (by omega) (by omega) same
    rw [distinct.dedup, length_map, length_range, k_eq]
    exact Nat.sub_add_cancel (by omega)

end Run

end Confusion

/-- When the symbols of an object come in two sizes: whatever honest symbols of it arrive in
whatever order at a reassembler that does not hold it yet, among whatever other symbols and changes
of the symbol size, every object that a push of one of them returns is the ciphertext. This holds
for all objects of a length exactly if symbols of the two sizes cannot be confused at that
length. -/
theorem mixed_sizes_return_ciphertext_iff (first second objectSize : Nat) :
    (∀ (ciphertext : List Byte) (objectKey : Nat) (re : FecReassembler)
        (events : List FecReassembler.Event) (symbol : Symbol) (nowMs deadlineMs : Nat)
        (object : List Byte),
      ciphertext.length = objectSize → re.objects.lookup objectKey = none →
      (∀ event ∈ events, event.Genuine ciphertext objectKey first second) →
      Honest ciphertext first symbol ∨ Honest ciphertext second symbol →
      ((Machine.run FecReassembler.step re events).push objectKey symbol nowMs deadlineMs).2 =
        some object → object = ciphertext) ↔
      ¬ Confusable first second objectSize := by
  constructor
  · rintro returns ⟨positive, less, part, leaves, room, fits⟩
    have output := confused_run positive less part leaves room fits
    obtain ⟨earlyHonest, lastHonest⟩ := confused_honest positive less part leaves room fits
    have either : ∀ size symbol, size = max first second ∨ size = min first second →
        Honest (marked objectSize) size symbol →
        Honest (marked objectSize) first symbol ∨ Honest (marked objectSize) second symbol := by
      rintro size symbol isSize honest
      have choice : size = first ∨ size = second := by omega
      rcases choice with rfl | rfl
      · exact Or.inl honest
      · exact Or.inr honest
    have same := returns (marked objectSize) 0 (FecReassembler.new (max first second) 1)
      ((range (sourceCount objectSize (max first second) - 1)).map fun index =>
        .push 0 (zeroSymbol objectSize (max first second) index) 0 0)
      _ 0 0 (replicate objectSize 0) (length_marked (by omega)) rfl
      (by
        intro event member
        obtain ⟨index, inRange, rfl⟩ := mem_map.mp member
        exact fun _ => either _ _ (Or.inl rfl) (earlyHonest index (mem_range.mp inRange)))
      (either _ _ (Or.inr rfl) lastHonest)
      (by
        rw [feed, Machine.run, foldl_map] at output
        rw [Machine.run, foldl_map]
        exact output)
    have lastByte := congrArg (fun bytes => bytes.getD (objectSize - 1) 0) same
    rw [marked] at lastByte
    simp at lastByte
  · intro apart ciphertext objectKey re events symbol nowMs deadlineMs object length absent genuine
      honest returned
    rw [← length] at apart
    have sincere : Sincere ciphertext first second objectKey
        (Machine.run FecReassembler.step re events) := by
      refine Machine.run_invariant FecReassembler.step _ _
        (fun _ _ sincere genuine => sincere.step apart genuine) re events ?_
        (Machine.admissible_of_forall FecReassembler.step _ re events genuine)
      intro state holds
      rw [absent] at holds
      cases holds
    rcases honest with honest | honest
    · exact (sincere.push_own apart (Or.inl rfl) honest nowMs deadlineMs).2 object returned
    · exact (sincere.push_own apart (Or.inr rfl) honest nowMs deadlineMs).2 object returned

/-- Five bytes are sent in symbols of three bytes and sent again in symbols of two. The first symbol
of the one and the second of the other have the lengths of a splitting into three and two bytes, and
the reassembler returns them as the object. -/
theorem resend_taken_for_first_send :
    let ciphertext := [1, 2, 3, 4, 5].map Byte.ofNat
    let sent : Symbol := ⟨0, 5, packPayloadId 0 0, [1, 2, 3].map Byte.ofNat⟩
    let resent : Symbol := ⟨0, 5, packPayloadId 1 0, [3, 4].map Byte.ofNat⟩
    sent ∈ build ciphertext ⟨3, 500, true⟩ 0 0 ∧ resent ∈ build ciphertext ⟨2, 500, true⟩ 0 0 ∧
      (((FecReassembler.new 3 256).push 9 sent 0 500).1.push 9 resent 1 500).2 =
        some ([1, 2, 3, 3, 4].map Byte.ofNat) := by
  decide +kernel

end Yip.Transport
