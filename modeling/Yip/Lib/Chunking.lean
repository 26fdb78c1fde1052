/-
This file is about content that is cut into pieces: of bounded lengths, one for each bound, with
one item kept back for every piece that follows, so that no piece but the last uses it up; or
into chunks of one size, which give back pieces that were laid end to end exactly when all but
the last of them have that size.
-/

import Mathlib.Data.List.Basic

namespace Chunking

open List

variable {Item : Type*}

def pieceLength (cap : Nat) (later : List Nat) (content : List Item) : Nat :=
  min cap (content.length - later.length)

def pieces : List Nat → List Item → List (List Item)
  | [], _ => []
  | cap :: later, content =>
    content.take (pieceLength cap later content) ::
      pieces later (content.drop (pieceLength cap later content))

def leftOver : List Nat → List Item → List Item
  | [], content => content
  | cap :: later, content => leftOver later (content.drop (pieceLength cap later content))

@[simp]
theorem length_pieces (caps : List Nat) (content : List Item) :
    (pieces caps content).length = caps.length := by
  induction caps generalizing content with
  | nil => rfl
  | cons cap later ih =>
    rw [pieces, length_cons, length_cons, ih]

theorem flatten_pieces_append (caps : List Nat) (content : List Item) :
    (pieces caps content).flatten ++ leftOver caps content = content := by
  induction caps generalizing content with
  | nil => rfl
  | cons cap later ih =>
    rw [pieces, leftOver, flatten_cons, append_assoc, ih,
      take_append_drop]

theorem length_flatten_take_lt {caps : List Nat} {content : List Item} (some : content ≠ [])
    {count : Nat} (early : count < caps.length) :
    ((pieces caps content).take count).flatten.length < content.length := by
  induction caps generalizing content count with
  | nil => exact absurd early (Nat.not_lt_zero _)
  | cons cap later ih =>
    have positive : 0 < content.length := length_pos_of_ne_nil some
    cases count with
    | zero => exact positive
    | succ count =>
      have earlier : count < later.length := Nat.succ_lt_succ_iff.mp early
      have short : pieceLength cap later content < content.length := by
        have bound : pieceLength cap later content ≤ content.length - later.length :=
          Nat.min_le_right _ _
        omega
      have remains : content.drop (pieceLength cap later content) ≠ [] := by
        rw [Ne, drop_eq_nil_iff, Nat.not_le]
        exact short
      have rest := ih remains earlier
      rw [length_drop] at rest
      rw [pieces, take_succ_cons, flatten_cons, length_append,
        length_take_of_le (Nat.le_of_lt short)]
      omega

/-! ### Chunks of one size -/

def chunks (size : Nat) (content : List Item) : List (List Item) :=
  if content = [] ∨ size = 0 then [] else content.take size :: chunks size (content.drop size)
termination_by content.length
decreasing_by
  rename_i more
  have positive := length_pos_of_ne_nil fun empty => more (Or.inl empty)
  rw [length_drop]
  omega

variable {size : Nat} {content : List Item}

theorem chunks_of_ne_nil (positive : 0 < size) (some : content ≠ []) :
    chunks size content = content.take size :: chunks size (content.drop size) := by
  rw [chunks, if_neg (not_or.mpr ⟨some, Nat.ne_of_gt positive⟩)]

@[simp]
theorem chunks_nil : chunks size ([] : List Item) = [] := by
  rw [chunks, if_pos (Or.inl rfl)]

theorem flatten_chunks (positive : 0 < size) (content : List Item) :
    (chunks size content).flatten = content := by
  induction content using chunks.induct size with
  | case1 content done =>
    rcases done with rfl | zero
    · rw [chunks_nil, flatten_nil]
    · exact absurd zero (Nat.ne_of_gt positive)
  | case2 content more ih =>
    rw [chunks, if_neg more, flatten_cons, ih, take_append_drop]

theorem length_chunks_le_one_iff (positive : 0 < size) :
    (chunks size content).length ≤ 1 ↔ content.length ≤ size := by
  have none_iff (content : List Item) : chunks size content = [] ↔ content = [] := by
    refine ⟨fun empty => ?_, fun empty => empty ▸ chunks_nil⟩
    rw [← flatten_chunks positive content, empty, flatten_nil]
  by_cases some : content = []
  · simp [some]
  · rw [chunks_of_ne_nil positive some, length_cons, ← drop_eq_nil_iff, ← none_iff,
      ← length_eq_zero_iff]
    omega

theorem length_of_mem_chunks {chunk : List Item} (member : chunk ∈ chunks size content) :
    chunk.length ≤ size ∧ chunk.length ≤ content.length ∧ chunk ≠ [] := by
  induction content using chunks.induct size with
  | case1 content done =>
    rw [chunks, if_pos done] at member
    exact absurd member not_mem_nil
  | case2 content more ih =>
    rw [chunks, if_neg more] at member
    rcases mem_cons.mp member with rfl | later
    · obtain ⟨some, positive⟩ := not_or.mp more
      have := length_pos_of_ne_nil some
      rw [← length_pos_iff, length_take]
      omega
    · obtain ⟨short, within, some⟩ := ih later
      rw [length_drop] at within
      exact ⟨short, by omega, some⟩

theorem length_flatten_take_chunks {count : Nat} (early : count < (chunks size content).length) :
    ((chunks size content).take count).flatten.length = count * size := by
  induction content using chunks.induct size generalizing count with
  | case1 content done =>
    rw [chunks, if_pos done] at early
    exact absurd early (Nat.not_lt_zero _)
  | case2 content more ih =>
    rw [chunks, if_neg more] at early ⊢
    cases count with
    | zero => simp
    | succ count =>
      have rest := Nat.lt_of_succ_lt_succ early
      have whole : size ≤ content.length := by
        by_contra short
        rw [drop_of_length_le (Nat.le_of_not_le short), chunks_nil] at rest
        exact absurd rest (Nat.not_lt_zero _)
      rw [take_succ_cons, flatten_cons, length_append, ih rest,
        length_take_of_le whole, Nat.succ_mul, Nat.add_comm]

theorem chunks_flatten_iff (positive : 0 < size) (pieces : List (List Item))
    (some : ∀ piece ∈ pieces, piece ≠ []) :
    chunks size pieces.flatten = pieces ↔
      (∀ piece ∈ pieces, piece.length ≤ size) ∧ ∀ piece ∈ pieces.dropLast, piece.length = size := by
  induction pieces with
  | nil => simp
  | cons first rest ih =>
    have nonempty : first ≠ [] := some first mem_cons_self
    have others := fun piece member => some piece (mem_cons_of_mem first member)
    rw [flatten_cons, chunks_of_ne_nil positive (by simp [nonempty]), cons.injEq]
    cases rest with
    | nil =>
      simp only [flatten_nil, append_nil, mem_singleton, forall_eq,
        dropLast_singleton, not_mem_nil, false_imp_iff, implies_true, and_true]
      constructor
      · rintro ⟨taken, -⟩
        rw [← taken, length_take]
        exact Nat.min_le_left _ _
      · intro short
        rw [take_of_length_le short, drop_of_length_le short, chunks_nil]
        exact ⟨rfl, rfl⟩
    | cons second rest =>
      have tail : 0 < (second :: rest).flatten.length := by
        have := length_pos_of_ne_nil (others second mem_cons_self)
        rw [flatten_cons, length_append]
        omega
      have whole : (first ++ (second :: rest).flatten).take size = first ↔ first.length = size := by
        refine ⟨fun taken => ?_, fun exact => by rw [← exact, take_left]⟩
        have lengths := congrArg length taken
        rw [length_take, length_append] at lengths
        omega
      rw [whole, dropLast_cons_cons, forall_mem_cons (l := second :: rest),
        forall_mem_cons (l := (second :: rest).dropLast)]
      constructor
      · rintro ⟨full, chunked⟩
        rw [← full, drop_left] at chunked
        obtain ⟨short, before⟩ := (ih others).mp (full ▸ chunked)
        exact ⟨⟨Nat.le_of_eq full, short⟩, full, before⟩
      · rintro ⟨⟨-, short⟩, full, before⟩
        refine ⟨full, ?_⟩
        rw [show (first ++ (second :: rest).flatten).drop size = (second :: rest).flatten by
          rw [← full, drop_left]]
        exact (ih others).mpr ⟨short, before⟩

end Chunking
