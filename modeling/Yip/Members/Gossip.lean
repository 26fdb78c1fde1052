/-
This file models the wire form of gossip (`gossip.rs`): a byte that says which message it is, a
count, and so many entries, ids or records.
-/

import Yip.Members.Directory

namespace Yip.Members

open Option

/-! ### So many items -/

section Items

variable {Item : Type}

def putMany (put : Item → Option (List Byte)) : List Item → Option (List Byte)
  | [] => some []
  | item :: rest => do
    let bytes ← put item
    let others ← putMany put rest
    return bytes ++ others

def takeMany (take : List Byte → Option (Item × List Byte)) :
    Nat → List Byte → Option (List Item × List Byte)
  | 0, buf => some ([], buf)
  | count + 1, buf => do
    let (item, buf) ← take buf
    let (items, buf) ← takeMany take count buf
    return (item :: items, buf)

variable {put : Item → Option (List Byte)} {take : List Byte → Option (Item × List Byte)}

variable {sized : Item → Prop}

theorem takeMany_eq_some_iff (one : ∀ buf item rest, take buf = some (item, rest) ↔
      sized item ∧ ∃ bytes, put item = some bytes ∧ buf = bytes ++ rest) {count : Nat}
    {buf rest : List Byte} {items : List Item} :
    takeMany take count buf = some (items, rest) ↔
      items.length = count ∧ (∀ item ∈ items, sized item) ∧
        ∃ bytes, putMany put items = some bytes ∧ buf = bytes ++ rest := by
  induction count generalizing buf rest items with
  | zero =>
    constructor
    · intro taken
      obtain ⟨rfl, rfl⟩ := Prod.mk.inj (some.inj taken)
      exact ⟨rfl, nofun, [], rfl, rfl⟩
    · rintro ⟨empty, -, bytes, written, rfl⟩
      obtain rfl := List.length_eq_zero_iff.mp empty
      obtain rfl := some.inj written
      rfl
  | succ count ih =>
    simp only [takeMany, bind_eq_bind, bind_eq_some_iff, Prod.exists, one, ih, pure_def,
      some.injEq, Prod.mk.injEq]
    constructor
    · rintro ⟨item, _, ⟨isSized, bytes, written, rfl⟩, others, _,
        ⟨rfl, allSized, later, writes, rfl⟩, rfl, rfl⟩
      refine ⟨rfl, List.forall_mem_cons.mpr ⟨isSized, allSized⟩, bytes ++ later, ?_, ?_⟩
      · simp [putMany, written, writes]
      · rw [List.append_assoc]
    · rintro ⟨length, allSized, _, written, rfl⟩
      cases items with
      | nil => cases length
      | cons item others =>
        simp only [putMany, bind_eq_bind, bind_eq_some_iff, pure_def, some.injEq]
          at written
        obtain ⟨bytes, first, later, second, rfl⟩ := written
        obtain ⟨isSized, othersSized⟩ := List.forall_mem_cons.mp allSized
        rw [List.append_assoc]
        exact ⟨_, _, ⟨isSized, bytes, first, rfl⟩, _, _,
          ⟨Nat.succ.inj length, othersSized, later, second, rfl⟩, rfl, rfl⟩

def putCounted (put : Item → Option (List Byte)) (items : List Item) : Option (List Byte) := do
  let count ← lengthField items.length
  let bytes ← putMany put items
  return count ++ bytes

def takeCounted (take : List Byte → Option (Item × List Byte)) (buf : List Byte) :
    Option (List Item) := do
  let (count, buf) ← takeUint 2 buf
  let (items, buf) ← takeMany take count buf
  if buf = [] then return items else none

theorem takeCounted_eq_some_iff (one : ∀ buf item rest, take buf = some (item, rest) ↔
      sized item ∧ ∃ bytes, put item = some bytes ∧ buf = bytes ++ rest) {buf : List Byte}
    {items : List Item} :
    takeCounted take buf = some items ↔
      (∀ item ∈ items, sized item) ∧ putCounted put items = some buf := by
  simp only [takeCounted, putCounted, bind_eq_bind, bind_eq_some_iff, Prod.exists,
    takeUint_eq_some_iff, takeMany_eq_some_iff one, lengthField_eq_some_iff, ite_none_right_eq_some,
    pure_def, some.injEq]
  constructor
  · rintro ⟨_, _, ⟨few, rfl⟩, items, _, ⟨rfl, allSized, bytes, written, rfl⟩, rfl, rfl⟩
    exact ⟨allSized, _, ⟨few, rfl⟩, bytes, written, by rw [List.append_nil]⟩
  · rintro ⟨allSized, _, ⟨few, rfl⟩, bytes, written, rfl⟩
    exact ⟨_, _, ⟨few, rfl⟩, _, _, ⟨rfl, allSized, bytes, written, (List.append_nil _).symm⟩, rfl,
      rfl⟩

end Items

/-! ### The three kinds of items -/

def putEntry (entry : NodeId × Nat) : Option (List Byte) :=
  some (entry.1.toList ++ toBeBytes 8 entry.2)

variable (buf : List Byte)

def takeEntry (buf : List Byte) : Option ((NodeId × Nat) × List Byte) := do
  let (id, buf) ← takeBytes 16 buf
  let (seq, buf) ← takeUint 8 buf
  return ((id, seq), buf)

def putId (id : NodeId) : Option (List Byte) := some id.toList

def frameRecord (record : Record) : Option (List Byte) := do
  let bytes ← record.encode
  let length ← lengthField bytes.length
  return length ++ bytes

def unframeRecord (buf : List Byte) : Option (Record × List Byte) := do
  let (length, buf) ← takeUint 2 buf
  let (bytes, buf) ← takeBytes length buf
  let record ← Record.decode bytes.toList
  return (record, buf)

theorem takeEntry_eq_some_iff (entry : NodeId × Nat) (rest : List Byte) :
    takeEntry buf = some (entry, rest) ↔
      entry.2 < 256 ^ 8 ∧ ∃ bytes, putEntry entry = some bytes ∧ buf = bytes ++ rest := by
  obtain ⟨id, seq⟩ := entry
  simp only [takeEntry, bind_eq_bind, bind_eq_some_iff, Prod.exists, takeBytes_eq_some_iff,
    takeUint_eq_some_iff, pure_def, some.injEq, Prod.mk.injEq]
  constructor
  · rintro ⟨_, _, rfl, _, _, ⟨low, rfl⟩, ⟨rfl, rfl⟩, rfl⟩
    exact ⟨low, _, rfl, (List.append_assoc _ _ _).symm⟩
  · rintro ⟨low, _, ⟨⟩, rfl⟩
    exact ⟨_, _, List.append_assoc _ _ _, _, _, ⟨low, rfl⟩, ⟨rfl, rfl⟩, rfl⟩

theorem takeId_eq_some_iff (id : NodeId) (rest : List Byte) :
    takeBytes 16 buf = some (id, rest) ↔
      True ∧ ∃ bytes, putId id = some bytes ∧ buf = bytes ++ rest := by
  rw [takeBytes_eq_some_iff]
  constructor
  · rintro rfl
    exact ⟨trivial, id.toList, rfl, rfl⟩
  · rintro ⟨-, _, ⟨⟩, rfl⟩
    rfl

theorem unframeRecord_eq_some_iff (record : Record) (rest : List Byte) :
    unframeRecord buf = some (record, rest) ↔
      record.Sized ∧ ∃ bytes, frameRecord record = some bytes ∧ buf = bytes ++ rest := by
  simp only [unframeRecord, frameRecord, bind_eq_bind, bind_eq_some_iff, Prod.exists,
    takeUint_eq_some_iff, takeBytes_eq_some_iff, Record.decode_eq_some_iff, lengthField_eq_some_iff,
    pure_def, some.injEq, Prod.mk.injEq]
  constructor
  · rintro ⟨length, _, ⟨short, rfl⟩, bytes, _, rfl, read, ⟨sized, encoded⟩, rfl, rfl⟩
    refine ⟨sized, _, ⟨_, encoded, _, ⟨?_, rfl⟩, rfl⟩, ?_⟩
    · rwa [bytes.toList_length]
    · rw [bytes.toList_length, List.append_assoc]
  · rintro ⟨sized, _, ⟨bytes, encoded, _, ⟨short, rfl⟩, rfl⟩, rfl⟩
    exact ⟨_, _, ⟨short, List.append_assoc _ _ _⟩, ⟨bytes, rfl⟩, _, rfl, _, ⟨sized, encoded⟩, rfl,
      rfl⟩

/-! ### Messages -/

namespace GossipMsg

def encode : GossipMsg → Option (List Byte)
  | .digest entries => (putCounted putEntry entries).map (Byte.ofNat 0 :: ·)
  | .pullRequest ids => (putCounted putId ids).map (Byte.ofNat 1 :: ·)
  | .records list => (putCounted frameRecord list).map (Byte.ofNat 2 :: ·)

def decodeBody (tag : Nat) (rest : List Byte) : Option GossipMsg :=
  match tag with
  | 0 => (takeCounted takeEntry rest).map .digest
  | 1 => (takeCounted (takeBytes 16) rest).map .pullRequest
  | 2 => (takeCounted unframeRecord rest).map .records
  | _ => none

def decode : List Byte → Option GossipMsg
  | [] => none
  | tag :: rest => decodeBody tag.toNat rest

def Sized : GossipMsg → Prop
  | .digest entries => ∀ entry ∈ entries, entry.2 < 256 ^ 8
  | .pullRequest ids => ∀ _ ∈ ids, True
  | .records list => ∀ record ∈ list, record.Sized

theorem decode_eq_some_iff {buf : List Byte} {message : GossipMsg} :
    decode buf = some message ↔ message.Sized ∧ message.encode = some buf := by
  have tagged {tag : Byte} {number : Nat} (same : tag.toNat = number) :
      tag = Byte.ofNat number := by
    rw [← same, Byte.ofNat_toNat]
  constructor
  · intro decoded
    cases buf with
    | nil => cases decoded
    | cons tag rest =>
      unfold decode decodeBody at decoded
      dsimp only at decoded
      split at decoded
      · rename_i isTag
        obtain ⟨entries, taken, rfl⟩ := map_eq_some_iff.mp decoded
        obtain ⟨sized, written⟩ := (takeCounted_eq_some_iff takeEntry_eq_some_iff).mp taken
        refine ⟨sized, ?_⟩
        rw [tagged isTag, encode, written, map_some]
      · rename_i isTag
        obtain ⟨ids, taken, rfl⟩ := map_eq_some_iff.mp decoded
        obtain ⟨sized, written⟩ := (takeCounted_eq_some_iff takeId_eq_some_iff).mp taken
        refine ⟨sized, ?_⟩
        rw [tagged isTag, encode, written, map_some]
      · rename_i isTag
        obtain ⟨list, taken, rfl⟩ := map_eq_some_iff.mp decoded
        obtain ⟨sized, written⟩ := (takeCounted_eq_some_iff unframeRecord_eq_some_iff).mp taken
        refine ⟨sized, ?_⟩
        rw [tagged isTag, encode, written, map_some]
      · cases decoded
  · rintro ⟨sized, encoded⟩
    cases message with
    | digest entries =>
      obtain ⟨body, written, rfl⟩ := map_eq_some_iff.mp encoded
      have taken := (takeCounted_eq_some_iff takeEntry_eq_some_iff).mpr ⟨sized, written⟩
      simp [decode, decodeBody, Byte.toNat_ofNat, taken]
    | pullRequest ids =>
      obtain ⟨body, written, rfl⟩ := map_eq_some_iff.mp encoded
      have taken := (takeCounted_eq_some_iff takeId_eq_some_iff).mpr ⟨sized, written⟩
      simp [decode, decodeBody, Byte.toNat_ofNat, taken]
    | records list =>
      obtain ⟨body, written, rfl⟩ := map_eq_some_iff.mp encoded
      have taken := (takeCounted_eq_some_iff unframeRecord_eq_some_iff).mpr ⟨sized, written⟩
      simp [decode, decodeBody, Byte.toNat_ofNat, taken]

end GossipMsg

end Yip.Members
