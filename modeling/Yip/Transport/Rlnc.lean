/-
This file models `rlnc.rs`, random linear network coding over the field of 256 elements: the
encoder, which combines the source symbols of a window with pseudorandom coefficients, and the
decoder, which brings coefficient vectors into echelon form one by one.
-/

import Yip.Lib.Echelon
import Yip.Lib.Machine
import Yip.Transport.Rs

namespace Yip.Transport

open ArrayList Gf256 Rs Echelon List

/-! ### Encoder -/

def splitmix32 (state : BitVec 32) : BitVec 32 × BitVec 32 :=
  let state := state + 0x9e3779b9#32
  let z := state
  let z := (z ^^^ (z >>> 16)) * 0x85ebca6b#32
  let z := (z ^^^ (z >>> 13)) * 0xc2b2ae35#32
  (state, z ^^^ (z >>> 16))

def scaleRow (c : Byte) (row : List Byte) : List Byte :=
  if c = 1 then row
  else if c = 0 then List.replicate row.length 0
  else row.map (mul c)

structure RlncEncoder where
  windowSize : Nat
  symbols : List (List Byte)
  symbolLen : Nat
  deriving DecidableEq, Repr

namespace RlncEncoder

def new (windowSize : Nat) : RlncEncoder := ⟨windowSize, [], 0⟩

def pushSource (encoder : RlncEncoder) (symbol : List Byte) : Option RlncEncoder :=
  if encoder.symbols.length < encoder.windowSize then
    if encoder.symbols.isEmpty then
      some { encoder with symbolLen := symbol.length, symbols := encoder.symbols ++ [symbol] }
    else if symbol.length = encoder.symbolLen then
      some { encoder with symbols := encoder.symbols ++ [symbol] }
    else none
  else none

def place (n i : Nat) (value : BitVec 32) (drawn : List Byte × Bool) : List Byte × Bool :=
  (List.range 4).foldl (fun drawn j =>
    if i + j < n then
      let byte := Byte.ofNat (value.toNat / 256 ^ j)
      (drawn.1.set (i + j) byte, drawn.2 && byte == 0)
    else drawn) drawn

def drawWords (n : Nat) : Nat → Nat → BitVec 32 → List Byte × Bool → BitVec 32 × List Byte × Bool
  | 0, _, state, drawn => (state, drawn)
  | words + 1, i, state, drawn =>
    let (state, value) := splitmix32 state
    drawWords n words (i + 4) state (place n i value drawn)

def draw (n : Nat) : Nat → BitVec 32 → List Byte → List Byte
  | 0, _, coeffs => coeffs
  | rounds + 1, state, coeffs =>
    let (state, coeffs, allZero) := drawWords n ((n + 3) / 4) 0 state (coeffs, true)
    if allZero then draw n rounds state coeffs else coeffs

def coefficients (encoder : RlncEncoder) (seed : BitVec 32) : List Byte :=
  let n := encoder.symbols.length
  let coeffs := draw n 16 seed (List.replicate encoder.windowSize 0)
  if (coeffs.take n).all (· == 0) then coeffs.set 0 1 else coeffs

/-- A combination of the window with coefficients drawn from the seed. -/
def produceCodedSymbol (encoder : RlncEncoder) (seed : BitVec 32) : List Byte × List Byte :=
  if encoder.symbols.length = 0 then
    (List.replicate encoder.windowSize 0, List.replicate encoder.symbolLen 0)
  else
    let coeffs := encoder.coefficients seed
    (coeffs, encoder.symbols.zipIdx.foldl (fun coded entry =>
      let coeff := coeffs.getD entry.2 0
      if coeff ≠ 0 then mulAddRow coeff entry.1 coded else coded)
      (List.replicate encoder.symbolLen 0))

end RlncEncoder

/-! ### Decoder -/

/-- The combinations received, in row echelon form. -/
structure RlncDecoder where
  windowSize : Nat
  symbolLen : Nat
  echelon : List (List Byte)
  coeffMatrix : List (List Byte)
  hasRow : List Bool
  rank : Nat
  deriving DecidableEq, Repr

namespace RlncDecoder

def new (windowSize symbolLen : Nat) : RlncDecoder where
  windowSize := windowSize
  symbolLen := symbolLen
  echelon := List.replicate windowSize (List.replicate symbolLen 0)
  coeffMatrix := List.replicate windowSize (List.replicate windowSize 0)
  hasRow := List.replicate windowSize false
  rank := 0

def isComplete (decoder : RlncDecoder) : Bool := decoder.rank == decoder.windowSize

def eliminate (c : Byte) (col : Nat) (pivot coeffs : List Byte) : List Byte :=
  coeffs.take col ++ 0 :: List.zipWith
    (fun target pCoeff => if pCoeff ≠ 0 then Byte.xor target (mul c pCoeff) else target)
    (coeffs.drop (col + 1)) (pivot.drop (col + 1))

def normalize (inv : Byte) (col : Nat) (coeffs : List Byte) : List Byte :=
  coeffs.take col ++ 1 :: (coeffs.drop (col + 1)).map fun coeff => mul coeff inv

def keep (decoder : RlncDecoder) (col : Nat) (coeffs coded : List Byte) : RlncDecoder :=
  { decoder with
    coeffMatrix := decoder.coeffMatrix.set col coeffs
    echelon := decoder.echelon.set col coded
    hasRow := decoder.hasRow.set col true
    rank := decoder.rank + 1 }

/-- Eliminates column by column; what is left becomes a new row. -/
def reduceFrom (decoder : RlncDecoder) : Nat → Nat → List Byte → List Byte → RlncDecoder × Bool
  | 0, _, _, _ => (decoder, false)
  | left + 1, col, coeffs, coded =>
    let c := coeffs.getD col 0
    if c = 0 then decoder.reduceFrom left (col + 1) coeffs coded
    else if decoder.hasRow.getD col false then
      decoder.reduceFrom left (col + 1)
        (eliminate c col (decoder.coeffMatrix.getD col []) coeffs)
        (mulAddRow c (decoder.echelon.getD col []) coded)
    else
      (decoder.keep col (normalize (inv c) col coeffs) (scaleRow (inv c) coded), true)

def consumeCodedSymbol (decoder : RlncDecoder) (coeffs coded : List Byte) : RlncDecoder × Bool :=
  if decoder.isComplete then (decoder, false)
  else if coeffs.length ≠ decoder.windowSize ∨ coded.length ≠ decoder.symbolLen then
    (decoder, false)
  else decoder.reduceFrom decoder.windowSize 0 coeffs coded

def solveLast (decoder : RlncDecoder) : Nat → List (List Byte)
  | 0 => []
  | solved + 1 =>
    let later := decoder.solveLast solved
    let i := decoder.windowSize - (solved + 1)
    (later.zip ((decoder.coeffMatrix.getD i []).drop (i + 1))).foldl
      (fun s entry => if entry.2 ≠ 0 then mulAddRow entry.2 entry.1 s else s)
      (decoder.echelon.getD i []) :: later

def extractSourceSymbols (decoder : RlncDecoder) : Option (List (List Byte)) :=
  if decoder.isComplete then some (decoder.solveLast decoder.windowSize) else none

/-! ### Lists as vectors -/

def vector (n : Nat) (values : List Byte) : Fin n → Byte := fun i => values.getD i 0

theorem sub_eq_xor (a b : Byte) : a - b = Byte.xor a b := by
  rw [sub_eq_add_neg]
  rfl

theorem getD_drop (values : List Byte) (count j : Nat) :
    (values.drop count).getD j 0 = values.getD (count + j) 0 := by
  rw [getD_eq_getElem?_getD, getElem?_drop, getD_eq_getElem?_getD]

theorem getD_splice {values rest : List Byte} {col : Nat} (inside : col < values.length)
    (entry : Byte) (j : Nat) :
    (values.take col ++ entry :: rest).getD j 0 =
      if j < col then values.getD j 0 else if j = col then entry
      else rest.getD (j - (col + 1)) 0 := by
  have length : (values.take col).length = col := by
    rw [length_take]
    omega
  rcases Nat.lt_trichotomy j col with less | rfl | greater
  · rw [if_pos less, getD_append _ _ _ _ (by omega), getD_eq_getElem?_getD,
      getElem?_take, if_pos less, getD_eq_getElem?_getD]
  · rw [if_neg (lt_irrefl j), if_pos rfl, getD_append_right _ _ _ _ (by omega), length,
      Nat.sub_self, getD_cons_zero]
  · obtain ⟨beyond, rfl⟩ : ∃ beyond, j = col + 1 + beyond := ⟨j - (col + 1), by omega⟩
    rw [if_neg (by omega), if_neg (by omega), getD_append_right _ _ _ _ (by omega), length,
      show col + 1 + beyond - col = beyond + 1 by omega, getD_cons_succ,
      Nat.add_sub_cancel_left]

section Rows

variable {n col : Nat} {coeffs pivot : List Byte}

theorem length_eliminate (length : coeffs.length = n) (pivotLength : pivot.length = n)
    (inside : col < n) (c : Byte) : (eliminate c col pivot coeffs).length = n := by
  simp only [eliminate, length_append, length_take, length_cons,
    length_zipWith, length_drop]
  omega

theorem vector_eliminate (length : coeffs.length = n) (pivotLength : pivot.length = n)
    (inside : col < n) (zero : ∀ j < col, pivot.getD j 0 = 0) (one : pivot.getD col 0 = 1) :
    vector n (eliminate (coeffs.getD col 0) col pivot coeffs) =
      vector n coeffs - coeffs.getD col 0 • vector n pivot := by
  funext j
  have entry : ∀ target pCoeff : Byte,
      (if pCoeff ≠ 0 then Byte.xor target (mul (coeffs.getD col 0) pCoeff) else target) =
        target - coeffs.getD col 0 * pCoeff := by
    intro target pCoeff
    split
    · rw [sub_eq_xor, ← mul_eq]
    · rename_i isZero
      rw [not_not.mp isZero, mul_zero, sub_zero]
  rw [Pi.sub_apply, Pi.smul_apply, smul_eq_mul]
  show (eliminate (coeffs.getD col 0) col pivot coeffs).getD j 0 =
    coeffs.getD j 0 - coeffs.getD col 0 * pivot.getD j 0
  rw [eliminate, getD_splice (by omega)]
  split
  · rename_i less
    rw [zero j less, mul_zero, sub_zero]
  · split
    · rename_i here
      rw [here, one, mul_one, sub_self]
    · simp only [entry]
      rw [getD_zipWith (fun target pCoeff => target - coeffs.getD col 0 * pCoeff) _ _ _
        (by rw [length_drop, length_drop, length, pivotLength]) (by simp), getD_drop,
        getD_drop, show col + 1 + ((j : Nat) - (col + 1)) = j by omega]

theorem length_normalize (length : coeffs.length = n) (inside : col < n) (inv : Byte) :
    (normalize inv col coeffs).length = n := by
  simp only [normalize, length_append, length_take, length_cons, length_map,
    length_drop]
  omega

theorem vector_normalize (length : coeffs.length = n) (inside : col < n)
    (zero : ∀ j < col, coeffs.getD j 0 = 0) (nonzero : coeffs.getD col 0 ≠ 0) :
    vector n (normalize (inv (coeffs.getD col 0)) col coeffs) =
      (coeffs.getD col 0)⁻¹ • vector n coeffs := by
  funext j
  rw [Pi.smul_apply, smul_eq_mul]
  show (normalize (inv (coeffs.getD col 0)) col coeffs).getD j 0 =
    (coeffs.getD col 0)⁻¹ * coeffs.getD j 0
  rw [normalize, getD_splice (by omega)]
  split
  · rename_i less
    rw [zero j less, mul_zero]
  · split
    · rename_i here
      rw [here, inv_mul_cancel₀ nonzero]
    · have bound : (j : Nat) < coeffs.length := by
        rw [length]
        exact j.isLt
      rw [getD_eq_getElem?_getD, getElem?_map, getElem?_drop,
        show col + 1 + ((j : Nat) - (col + 1)) = j by omega, getElem?_eq_getElem bound,
        getD_eq_getElem coeffs 0 bound]
      exact mul_comm _ _

theorem length_scaleRow (c : Byte) (row : List Byte) : (scaleRow c row).length = row.length := by
  unfold scaleRow
  split_ifs <;> simp

theorem getD_scaleRow (c : Byte) (row : List Byte) (j : Nat) :
    (scaleRow c row).getD j 0 = c * row.getD j 0 := by
  unfold scaleRow
  split_ifs with isOne isZero
  · rw [isOne, one_mul]
  · rw [isZero, zero_mul, getD_eq_getElem?_getD, getElem?_replicate]
    split <;> rfl
  · rw [getD_eq_getElem?_getD, getElem?_map, getD_eq_getElem?_getD]
    cases row[j]? with
    | none => exact (mul_zero c).symm
    | some value => rfl

end Rows

/-! ### Combinations of the sources -/

def value {n : Nat} (sources : List (List Byte)) (coeffs : Fin n → Byte) (p : Nat) : Byte :=
  ∑ i, coeffs i * (sources.getD i []).getD p 0

structure Codes (n len : Nat) (sources : List (List Byte)) (coeffs coded : List Byte) : Prop where
  length : coded.length = len
  bytes : ∀ p, coded.getD p 0 = value sources (vector n coeffs) p

section Values

variable {n len col : Nat} {sources : List (List Byte)} {coeffs coded pivot payload : List Byte}

theorem value_sub_smul (first second : Fin n → Byte) (c : Byte) (p : Nat) :
    value sources (first - c • second) p = value sources first p - c * value sources second p := by
  simp only [value, Pi.sub_apply, Pi.smul_apply, smul_eq_mul, sub_mul, Finset.sum_sub_distrib,
    Finset.mul_sum, mul_assoc]

theorem value_smul (coeffs : Fin n → Byte) (c : Byte) (p : Nat) :
    value sources (c • coeffs) p = c * value sources coeffs p := by
  simp only [value, Pi.smul_apply, smul_eq_mul, Finset.mul_sum, mul_assoc]

theorem Codes.eliminate (codes : Codes n len sources coeffs coded)
    (row : Codes n len sources pivot payload) (length : coeffs.length = n)
    (pivotLength : pivot.length = n) (inside : col < n) (zero : ∀ j < col, pivot.getD j 0 = 0)
    (one : pivot.getD col 0 = 1) :
    Codes n len sources (eliminate (coeffs.getD col 0) col pivot coeffs)
      (mulAddRow (coeffs.getD col 0) payload coded) := by
  have same : payload.length = coded.length := row.length.trans codes.length.symm
  refine ⟨(length_mulAddRow _ _ _ same).trans codes.length, fun p => ?_⟩
  rw [getD_mulAddRow _ _ _ same, vector_eliminate length pivotLength inside zero one,
    value_sub_smul, ← codes.bytes, ← row.bytes, sub_eq_xor]
  rfl

theorem Codes.normalize (codes : Codes n len sources coeffs coded) (length : coeffs.length = n)
    (inside : col < n) (zero : ∀ j < col, coeffs.getD j 0 = 0) (nonzero : coeffs.getD col 0 ≠ 0) :
    Codes n len sources (normalize (inv (coeffs.getD col 0)) col coeffs)
      (scaleRow (inv (coeffs.getD col 0)) coded) := by
  refine ⟨(length_scaleRow _ _).trans codes.length, fun p => ?_⟩
  rw [getD_scaleRow, vector_normalize length inside zero nonzero, value_smul, ← codes.bytes]
  rfl

end Values

/-! ### The rows of a decoder -/

def row (decoder : RlncDecoder) (n : Nat) (i : Fin n) : Fin n → Byte :=
  vector n (decoder.coeffMatrix.getD i [])

def pivots (decoder : RlncDecoder) (n : Nat) : Set (Fin n) :=
  {i | decoder.hasRow.getD i false = true}

/-- The rows are in echelon form and the rank counts them. -/
structure Reduced (decoder : RlncDecoder) (n len : Nat) : Prop where
  windowSize : decoder.windowSize = n
  symbolLen : decoder.symbolLen = len
  rows : decoder.coeffMatrix.length = n
  rowLength : ∀ i < n, (decoder.coeffMatrix.getD i []).length = n
  payloads : decoder.echelon.length = n
  payloadLength : ∀ i < n, (decoder.echelon.getD i []).length = len
  flags : decoder.hasRow.length = n
  rank : decoder.rank = decoder.hasRow.count true
  stairs : Staircase (decoder.row n) (decoder.pivots n)

def Carries (decoder : RlncDecoder) (n len : Nat) (sources : List (List Byte)) : Prop :=
  ∀ i < n, decoder.hasRow.getD i false = true →
    Codes n len sources (decoder.coeffMatrix.getD i []) (decoder.echelon.getD i [])

/-- A combination is spanned by the rows, or adds one. -/
inductive Outcome (decoder : RlncDecoder) (n len : Nat) (coeffs coded : List Byte) :
    RlncDecoder × Bool → Prop where
  | dependent (spanned : vector n coeffs ∈ rowSpace (decoder.row n)) :
    Outcome decoder n len coeffs coded (decoder, false)
  | new (col : Nat) (inside : col < n) (absent : decoder.hasRow.getD col false = false)
    (kept payload : List Byte) (length : kept.length = n) (payloadLength : payload.length = len)
    (zero : ∀ j < col, kept.getD j 0 = 0) (one : kept.getD col 0 = 1)
    (independent : vector n coeffs ∉ rowSpace (decoder.row n))
    (spans : rowSpace (decoder.row n) ⊔ Submodule.span Byte {vector n kept} =
      rowSpace (decoder.row n) ⊔ Submodule.span Byte {vector n coeffs})
    (codes : ∀ sources, decoder.Carries n len sources → Codes n len sources coeffs coded →
      Codes n len sources kept payload) :
    Outcome decoder n len coeffs coded (decoder.keep col kept payload, true)

section Consume

variable {decoder : RlncDecoder} {n len : Nat}

variable {result : RlncDecoder × Bool}

theorem Outcome.of_eliminate {coeffs coded coeffs' coded' : List Byte} {spanned : Fin n → Byte}
    (member : spanned ∈ rowSpace (decoder.row n))
    (reduced : vector n coeffs' = vector n coeffs - spanned)
    (carried : ∀ sources, decoder.Carries n len sources → Codes n len sources coeffs coded →
      Codes n len sources coeffs' coded') (outcome : Outcome decoder n len coeffs' coded' result) :
    Outcome decoder n len coeffs coded result := by
  cases outcome with
  | dependent inside =>
    rw [reduced, Submodule.sub_mem_iff_left _ member] at inside
    exact .dependent inside
  | new col inside absent kept payload length payloadLength zero one independent spans codes =>
    rw [reduced, Submodule.sub_mem_iff_left _ member] at independent
    rw [reduced, sup_span_sub member] at spans
    exact .new col inside absent kept payload length payloadLength zero one independent spans
      fun sources carries coded => codes sources carries (carried sources carries coded)

section

variable (form : decoder.Reduced n len)

include form

theorem reduceFrom_outcome (left col : Nat) (coeffs coded : List Byte) (columns : col + left = n)
    (length : coeffs.length = n) (codedLength : coded.length = len)
    (zero : ∀ j < col, coeffs.getD j 0 = 0) :
    Outcome decoder n len coeffs coded (decoder.reduceFrom left col coeffs coded) := by
  induction left generalizing col coeffs coded with
  | zero =>
    -- All columns are cleared: the vector is zero.
    have cleared : vector n coeffs = 0 := funext fun j => zero j (by omega)
    exact .dependent (cleared ▸ Submodule.zero_mem _)
  | succ left ih =>
    have inside : col < n := by omega
    rw [reduceFrom]
    by_cases isZero : coeffs.getD col 0 = 0
    · simp only [if_pos isZero]
      refine ih (col + 1) coeffs coded (by omega) length codedLength
        fun j below => ?_
      rcases Nat.lt_succ_iff_lt_or_eq.mp below with before | here
      · exact zero j before
      · rw [here, isZero]
    · simp only [if_neg isZero]
      by_cases present : decoder.hasRow.getD col false = true
      · have pivotLength := form.rowLength col inside
        have pivotZero : ∀ j < col, (decoder.coeffMatrix.getD col []).getD j 0 = 0 :=
          fun j before => form.stairs.before ⟨col, inside⟩ ⟨j, by omega⟩ before
        have pivotOne : (decoder.coeffMatrix.getD col []).getD col 0 = 1 :=
          form.stairs.pivot ⟨col, inside⟩ present
        have payloadLength := form.payloadLength col inside
        have reduced := vector_eliminate length pivotLength inside pivotZero pivotOne
        rw [if_pos present]
        refine Outcome.of_eliminate
          (Submodule.smul_mem _ (coeffs.getD col 0) (row_mem_rowSpace ⟨col, inside⟩)) reduced
          (fun sources carries codes => codes.eliminate (carries col inside present) length
            pivotLength inside pivotZero pivotOne) ?_
        refine ih (col + 1) _ _ (by omega)
          (length_eliminate length pivotLength inside _)
          ((length_mulAddRow _ _ _ (by rw [payloadLength, codedLength])).trans codedLength) ?_
        intro j below
        rw [eliminate, getD_splice (by omega)]
        split
        · rename_i before
          exact zero j before
        · rw [if_pos (by omega)]
      · have absent : decoder.hasRow.getD col false = false := Bool.eq_false_iff.mpr present
        have scaled := vector_normalize length inside zero isZero
        rw [if_neg present]
        refine .new col inside absent _ _ (length_normalize length inside _)
          ((length_scaleRow _ _).trans codedLength) ?_ ?_ ?_ ?_
          fun sources _ codes => codes.normalize length inside zero isZero
        · intro j before
          rw [normalize, getD_splice (by omega), if_pos before, zero j before]
        · rw [normalize, getD_splice (by omega), if_neg (lt_irrefl col), if_pos rfl]
        · intro spanned
          have leading : ∀ j < (⟨col, inside⟩ : Fin n), vector n coeffs j = 0 :=
            fun j before => zero j before
          exact isZero (form.stairs.entry_eq_zero spanned leading present)
        · rw [scaled, Submodule.span_singleton_smul_eq (IsUnit.mk0 _ (inv_ne_zero isZero))]

variable {col : Nat}

theorem coeffMatrix_keep (inside : col < n) (kept payload : List Byte) (i : Nat) :
    (decoder.keep col kept payload).coeffMatrix.getD i [] =
      if col = i then kept else decoder.coeffMatrix.getD i [] :=
  getD_set _ _ _ _ _ (by rw [form.rows]; exact inside)

theorem echelon_keep (inside : col < n) (kept payload : List Byte) (i : Nat) :
    (decoder.keep col kept payload).echelon.getD i [] =
      if col = i then payload else decoder.echelon.getD i [] :=
  getD_set _ _ _ _ _ (by rw [form.payloads]; exact inside)

theorem hasRow_keep (inside : col < n) (kept payload : List Byte) (i : Nat) :
    (decoder.keep col kept payload).hasRow.getD i false =
      if col = i then true else decoder.hasRow.getD i false :=
  getD_set _ _ _ _ _ (by rw [form.flags]; exact inside)

theorem row_keep (inside : col < n) (kept payload : List Byte) :
    (decoder.keep col kept payload).row n =
      Function.update (decoder.row n) ⟨col, inside⟩ (vector n kept) := by
  funext i
  rw [row, coeffMatrix_keep form inside]
  by_cases here : i = ⟨col, inside⟩
  · rw [here, Function.update_self, if_pos rfl]
  · rw [Function.update_of_ne here, if_neg fun same => here (Fin.ext same.symm)]
    rfl

theorem Reduced.keep {col : Nat} (inside : col < n) (absent : decoder.hasRow.getD col false = false)
    {kept payload : List Byte} (length : kept.length = n) (payloadLength : payload.length = len)
    (zero : ∀ j < col, kept.getD j 0 = 0) (one : kept.getD col 0 = 1) :
    (decoder.keep col kept payload).Reduced n len where
  windowSize := form.windowSize
  symbolLen := form.symbolLen
  rows := length_set.trans form.rows
  rowLength i bound := by
    rw [coeffMatrix_keep form inside]
    split
    · exact length
    · exact form.rowLength i bound
  payloads := length_set.trans form.payloads
  payloadLength i bound := by
    rw [echelon_keep form inside]
    split
    · exact payloadLength
    · exact form.payloadLength i bound
  flags := length_set.trans form.flags
  rank := by
    have bound : col < decoder.hasRow.length := by
      rw [form.flags]
      exact inside
    rw [getD_eq_getElem _ _ bound] at absent
    show decoder.rank + 1 = (decoder.hasRow.set col true).count true
    rw [count_set bound, absent, form.rank]
    rfl
  stairs := by
    rw [row_keep form inside]
    have pivots : (decoder.keep col kept payload).pivots n =
        insert ⟨col, inside⟩ (decoder.pivots n) := by
      ext i
      show (decoder.keep col kept payload).hasRow.getD i false = true ↔ _
      rw [hasRow_keep form inside, Set.mem_insert_iff, Fin.ext_iff]
      by_cases here : col = i
      · simp [here]
      · rw [if_neg here, or_iff_right (Ne.symm here)]
        rfl
    rw [pivots]
    exact form.stairs.insert (fun j before => zero j before) one

theorem Carries.keep {sources : List (List Byte)} (carries : decoder.Carries n len sources)
    {col : Nat} (inside : col < n) {kept payload : List Byte}
    (codes : Codes n len sources kept payload) :
    (decoder.keep col kept payload).Carries n len sources := by
  intro i bound present
  rw [coeffMatrix_keep form inside, echelon_keep form inside]
  rw [hasRow_keep form inside] at present
  by_cases here : col = i
  · rw [if_pos here, if_pos here]
    exact codes
  · rw [if_neg here] at present
    rw [if_neg here, if_neg here]
    exact carries i bound present

theorem Reduced.mem_pivots (full : decoder.rank = n) (i : Fin n) : i ∈ decoder.pivots n := by
  have all : decoder.hasRow.count true = decoder.hasRow.length := by
    rw [← form.rank, full, form.flags]
  have bound : (i : Nat) < decoder.hasRow.length := by
    rw [form.flags]
    exact i.isLt
  show decoder.hasRow.getD i false = true
  rw [getD_eq_getElem _ _ bound]
  exact (count_eq_length.mp all _ (getElem_mem bound)).symm

end

structure Consumes (decoder : RlncDecoder) (n len : Nat) (coeffs coded : List Byte)
    (result : RlncDecoder × Bool) : Prop where
  form : result.1.Reduced n len
  rank : result.1.rank = if result.2 then decoder.rank + 1 else decoder.rank
  increases : result.2 = true ↔ vector n coeffs ∉ rowSpace (decoder.row n)
  spans : rowSpace (result.1.row n) =
    rowSpace (decoder.row n) ⊔ Submodule.span Byte {vector n coeffs}
  carries : ∀ sources, decoder.Carries n len sources → Codes n len sources coeffs coded →
    result.1.Carries n len sources

theorem Outcome.consumes (form : decoder.Reduced n len) {coeffs coded : List Byte}
    (outcome : Outcome decoder n len coeffs coded result) :
    Consumes decoder n len coeffs coded result := by
  cases outcome with
  | dependent spanned =>
    refine ⟨form, rfl, iff_of_false Bool.false_ne_true (not_not.mpr spanned), ?_,
      fun _ carries _ => carries⟩
    exact (sup_eq_left.mpr ((Submodule.span_singleton_le_iff_mem _ _).mpr spanned)).symm
  | new col inside absent kept payload length payloadLength zero one independent spans codes =>
    refine ⟨form.keep inside absent length payloadLength zero one, rfl,
      iff_of_true rfl independent, ?_,
      fun sources carries coded => carries.keep form inside (codes sources carries coded)⟩
    have missing : (⟨col, inside⟩ : Fin n) ∉ decoder.pivots n := Bool.eq_false_iff.mp absent
    rw [row_keep form inside, form.stairs.rowSpace_insert missing, spans]

theorem Reduced.consume (form : decoder.Reduced n len) {coeffs coded : List Byte}
    (length : coeffs.length = n) (codedLength : coded.length = len) :
    Consumes decoder n len coeffs coded (decoder.consumeCodedSymbol coeffs coded) := by
  rw [consumeCodedSymbol]
  by_cases complete : decoder.isComplete = true
  · rw [if_pos complete]
    have full : decoder.rank = n := (beq_iff_eq.mp complete).trans form.windowSize
    refine (Outcome.dependent ?_).consumes form
    rw [form.stairs.rowSpace_eq_top (form.mem_pivots full)]
    exact Submodule.mem_top
  · have fits : ¬ (coeffs.length ≠ decoder.windowSize ∨ coded.length ≠ decoder.symbolLen) := by
      rw [form.windowSize, form.symbolLen, length, codedLength]
      simp
    rw [if_neg complete, if_neg fits, form.windowSize]
    exact (reduceFrom_outcome form n 0 coeffs coded (Nat.zero_add n) length codedLength
      fun j before => absurd before (Nat.not_lt_zero j)).consumes form

end Consume

/-! ### Back-substitution -/

section Extract

variable {decoder : RlncDecoder} {n len : Nat} {sources : List (List Byte)}

theorem add_self (a : Byte) : a + a = 0 := by
  have zero := sub_self a
  rwa [sub_eq_xor] at zero

theorem eq_of_getD {first second : List Byte} (length : first.length = second.length)
    (bytes : ∀ p, first.getD p 0 = second.getD p 0) : first = second := by
  refine ext_getElem length fun p inFirst inSecond => ?_
  rw [← getD_eq_getElem first 0 inFirst, ← getD_eq_getElem second 0 inSecond]
  exact bytes p

theorem foldl_mulAddRow (pairs : List (List Byte × Byte)) (start : List Byte)
    (length : ∀ pair ∈ pairs, pair.1.length = start.length) :
    (pairs.foldl (fun s entry => if entry.2 ≠ 0 then mulAddRow entry.2 entry.1 s else s)
        start).length = start.length ∧
      ∀ p, (pairs.foldl (fun s entry => if entry.2 ≠ 0 then mulAddRow entry.2 entry.1 s else s)
        start).getD p 0 =
          start.getD p 0 + (pairs.map fun pair => pair.2 * pair.1.getD p 0).sum := by
  induction pairs generalizing start with
  | nil => exact ⟨rfl, fun p => (add_zero _).symm⟩
  | cons pair rest ih =>
    have same := length pair mem_cons_self
    have step : (if pair.2 ≠ 0 then mulAddRow pair.2 pair.1 start else start) =
        mulAddRow pair.2 pair.1 start := by
      split
      · rfl
      · rename_i zero
        rw [mulAddRow, if_pos (not_not.mp zero)]
    have kept := length_mulAddRow pair.2 pair.1 start same
    obtain ⟨total, bytes⟩ := ih (mulAddRow pair.2 pair.1 start)
      fun other member => (length other (mem_cons_of_mem _ member)).trans kept.symm
    rw [foldl_cons, step]
    refine ⟨total.trans kept, fun p => ?_⟩
    rw [bytes p, getD_mulAddRow _ _ _ same, map_cons, sum_cons, add_assoc]

theorem sum_zip (symbols : List (List Byte)) (coeffs : List Byte) (p : Nat)
    (length : symbols.length = coeffs.length) :
    ((symbols.zip coeffs).map fun pair => pair.2 * pair.1.getD p 0).sum =
      ∑ k ∈ Finset.range coeffs.length, coeffs.getD k 0 * (symbols.getD k []).getD p 0 := by
  induction symbols generalizing coeffs with
  | nil =>
    obtain rfl := eq_nil_of_length_eq_zero length.symm
    rfl
  | cons symbol symbols ih =>
    obtain ⟨coeff, coeffs, rfl⟩ := exists_cons_of_length_eq_add_one length.symm
    rw [zip_cons_cons, map_cons, sum_cons,
      ih coeffs (Nat.succ.inj length), length_cons,
      Finset.sum_range_succ', add_comm]
    rfl

theorem value_of_pivot {coeffs : List Byte} {i : Nat} (inside : i < n)
    (zero : ∀ j < i, coeffs.getD j 0 = 0) (one : coeffs.getD i 0 = 1) (p : Nat) :
    value sources (vector n coeffs) p = (sources.getD i []).getD p 0 +
      ∑ k ∈ Finset.range (n - (i + 1)),
        coeffs.getD (i + 1 + k) 0 * (sources.getD (i + 1 + k) []).getD p 0 := by
  obtain ⟨later, rfl⟩ : ∃ later, n = i + 1 + later := ⟨n - (i + 1), by omega⟩
  have all : value sources (vector (i + 1 + later) coeffs) p =
      ∑ j ∈ Finset.range (i + 1 + later), coeffs.getD j 0 * (sources.getD j []).getD p 0 :=
    Fin.sum_univ_eq_sum_range (fun j => coeffs.getD j 0 * (sources.getD j []).getD p 0) _
  have before : ∑ j ∈ Finset.range i, coeffs.getD j 0 * (sources.getD j []).getD p 0 = 0 :=
    Finset.sum_eq_zero fun j below => by rw [zero j (Finset.mem_range.mp below), zero_mul]
  rw [all, Finset.sum_range_add, Finset.sum_range_succ, before, one, zero_add, one_mul,
    Nat.add_sub_cancel_left]

theorem Reduced.solveLast_eq (form : decoder.Reduced n len) (full : decoder.rank = n)
    (carries : decoder.Carries n len sources) (count : sources.length = n)
    (lengths : ∀ symbol ∈ sources, symbol.length = len) (solved : Nat) (some : solved ≤ n) :
    decoder.solveLast solved = sources.drop (n - solved) := by
  induction solved with
  | zero => rw [solveLast, Nat.sub_zero, ← count, drop_length]
  | succ solved ih =>
    obtain ⟨i, last⟩ : ∃ i, n - (solved + 1) = i := ⟨_, rfl⟩
    have inside : i < n := by omega
    have next : n - solved = i + 1 := by omega
    have present := form.mem_pivots full ⟨i, inside⟩
    have codes := carries i inside present
    have rowLength := form.rowLength i inside
    have zero : ∀ j < i, (decoder.coeffMatrix.getD i []).getD j 0 = 0 :=
      fun j before => form.stairs.before ⟨i, inside⟩ ⟨j, by omega⟩ before
    have one : (decoder.coeffMatrix.getD i []).getD i 0 = 1 :=
      form.stairs.pivot ⟨i, inside⟩ present
    have behind : (sources.drop (i + 1)).length =
        ((decoder.coeffMatrix.getD i []).drop (i + 1)).length := by
      rw [length_drop, length_drop, count, rowLength]
    have sourceInside : i < sources.length := by omega
    obtain ⟨length, bytes⟩ := foldl_mulAddRow
      ((sources.drop (i + 1)).zip ((decoder.coeffMatrix.getD i []).drop (i + 1)))
      (decoder.echelon.getD i []) fun pair member => by
        have symbol := mem_of_mem_drop (of_mem_zip member).1
        rw [lengths _ symbol, form.payloadLength i inside]
    rw [solveLast, ih (by omega), form.windowSize, last, next,
      drop_eq_getElem_cons sourceInside]
    refine congrArg (· :: sources.drop (i + 1)) (eq_of_getD ?_ fun p => ?_)
    · rw [length, form.payloadLength i inside, lengths _ (getElem_mem sourceInside)]
    · -- What the later sources add is added once more and so taken off.
      rw [bytes p, codes.bytes p, value_of_pivot inside zero one, sum_zip _ _ _ behind,
        length_drop, rowLength, ← getD_eq_getElem sources [] sourceInside, add_assoc]
      simp only [getD_eq_getElem?_getD, getElem?_drop]
      rw [add_self, add_zero]

theorem Reduced.extract (form : decoder.Reduced n len) (carries : decoder.Carries n len sources)
    (count : sources.length = n) (lengths : ∀ symbol ∈ sources, symbol.length = len) :
    decoder.extractSourceSymbols = if decoder.rank = n then some sources else none := by
  rw [extractSourceSymbols, isComplete, form.windowSize]
  by_cases full : decoder.rank = n
  · rw [if_pos full, if_pos (beq_iff_eq.mpr full),
      form.solveLast_eq full carries count lengths n le_rfl, Nat.sub_self, drop_zero]
  · rw [if_neg full, if_neg fun equal => full (beq_iff_eq.mp equal)]

end Extract

end RlncDecoder

/-! ### What the encoder produces -/

namespace RlncEncoder

open RlncDecoder

theorem length_place (n i : Nat) (value : BitVec 32) (drawn : List Byte × Bool) :
    (place n i value drawn).1.length = drawn.1.length := by
  have general : ∀ (indices : List Nat) (drawn : List Byte × Bool),
      (indices.foldl (fun drawn j =>
        if i + j < n then
          (drawn.1.set (i + j) (Byte.ofNat (value.toNat / 256 ^ j)),
            drawn.2 && Byte.ofNat (value.toNat / 256 ^ j) == 0)
        else drawn) drawn).1.length = drawn.1.length := by
    intro indices
    induction indices with
    | nil => exact fun _ => rfl
    | cons j rest ih =>
      intro drawn
      rw [foldl_cons, ih]
      split
      · exact length_set
      · rfl
  exact general _ drawn

theorem length_drawWords (n words i : Nat) (state : BitVec 32) (drawn : List Byte × Bool) :
    (drawWords n words i state drawn).2.1.length = drawn.1.length := by
  induction words generalizing i state drawn with
  | zero => rfl
  | succ words ih =>
    rw [drawWords]
    exact (ih _ _ _).trans (length_place n i _ drawn)

theorem length_draw (n rounds : Nat) (state : BitVec 32) (coeffs : List Byte) :
    (draw n rounds state coeffs).length = coeffs.length := by
  induction rounds generalizing state coeffs with
  | zero => rfl
  | succ rounds ih =>
    have round := length_drawWords n ((n + 3) / 4) 0 state (coeffs, true)
    rw [draw]
    dsimp only
    split
    · rw [ih, round]
    · exact round

variable (encoder : RlncEncoder) (seed : BitVec 32)

theorem length_coefficients : (encoder.coefficients seed).length = encoder.windowSize := by
  have drawn : (draw encoder.symbols.length 16 seed
      (replicate encoder.windowSize 0)).length = encoder.windowSize :=
    (length_draw _ _ _ _).trans length_replicate
  unfold coefficients
  dsimp only
  split
  · rw [length_set, drawn]
  · exact drawn

theorem codes_produceCodedSymbol
    (full : encoder.symbols.length = encoder.windowSize) (some : 0 < encoder.windowSize)
    (lengths : ∀ symbol ∈ encoder.symbols, symbol.length = encoder.symbolLen) :
    (encoder.produceCodedSymbol seed).1.length = encoder.windowSize ∧
      Codes encoder.windowSize encoder.symbolLen encoder.symbols
        (encoder.produceCodedSymbol seed).1 (encoder.produceCodedSymbol seed).2 := by
  rw [produceCodedSymbol, if_neg (by omega)]
  have coeffsLength := length_coefficients encoder seed
  generalize encoder.coefficients seed = coeffs at coeffsLength ⊢
  have pairs : encoder.symbols.zipIdx.map (fun entry => (entry.1, coeffs.getD entry.2 0)) =
      encoder.symbols.zip coeffs := by
    refine ext_getElem (by simp [full, coeffsLength]) fun i first second => ?_
    have bound : i < coeffs.length := by
      simp only [length_map, length_zipIdx] at first
      omega
    simp [getElem?_eq_getElem bound]
  have folded : encoder.symbols.zipIdx.foldl (fun coded entry =>
      if coeffs.getD entry.2 0 ≠ 0 then mulAddRow (coeffs.getD entry.2 0) entry.1 coded else coded)
        (replicate encoder.symbolLen 0) =
      (encoder.symbols.zip coeffs).foldl (fun s entry =>
        if entry.2 ≠ 0 then mulAddRow entry.2 entry.1 s else s)
        (replicate encoder.symbolLen 0) := by
    rw [← pairs, foldl_map]
  obtain ⟨length, bytes⟩ := foldl_mulAddRow (encoder.symbols.zip coeffs)
    (replicate encoder.symbolLen 0) fun pair member => by
      rw [lengths _ (of_mem_zip member).1, length_replicate]
  refine ⟨coeffsLength, ?_, fun p => ?_⟩
  · simp only [folded, length, length_replicate]
  · have zero : (replicate encoder.symbolLen (0 : Byte)).getD p 0 = 0 := by
      rw [getD_eq_getElem?_getD, getElem?_replicate]
      split <;> rfl
    simp only [folded]
    rw [bytes p, zero, zero_add, sum_zip _ _ _ (full.trans coeffsLength.symm), coeffsLength]
    exact (Fin.sum_univ_eq_sum_range
      (fun j => coeffs.getD j 0 * (encoder.symbols.getD j []).getD p 0) _).symm

theorem foldlM_pushSource {len : Nat} (sources : List (List Byte)) {before encoder : RlncEncoder}
    (pushed : sources.foldlM pushSource before = some encoder)
    (lengths : ∀ symbol ∈ sources, symbol.length = len)
    (known : before.symbols ≠ [] → before.symbolLen = len) :
    encoder.windowSize = before.windowSize ∧ encoder.symbols = before.symbols ++ sources ∧
      (encoder.symbols ≠ [] → encoder.symbolLen = len) := by
  induction sources generalizing before with
  | nil =>
    cases pushed
    exact ⟨rfl, (append_nil _).symm, known⟩
  | cons symbol rest ih =>
    have symbolLength := lengths symbol mem_cons_self
    rw [foldlM_cons] at pushed
    obtain ⟨next, first, pushed⟩ := Option.bind_eq_some_iff.mp pushed
    have stepped : next.windowSize = before.windowSize ∧
        next.symbols = before.symbols ++ [symbol] ∧ next.symbolLen = len := by
      rw [pushSource] at first
      split at first
      · split at first
        · cases first
          exact ⟨rfl, rfl, symbolLength⟩
        · rename_i several
          split at first
          · cases first
            exact ⟨rfl, rfl, known fun empty => several (by rw [empty]; rfl)⟩
          · cases first
      · cases first
    obtain ⟨window, symbols, len_eq⟩ := ih pushed
      (fun other member => lengths other (mem_cons_of_mem _ member)) fun _ => stepped.2.2
    refine ⟨window.trans stepped.1, ?_, len_eq⟩
    rw [symbols, stepped.2.1, append_assoc, singleton_append]

end RlncEncoder

/-! ### Every sequence of symbols -/

namespace RlncDecoder

def consumeAll (decoder : RlncDecoder) (symbols : List (List Byte × List Byte)) : RlncDecoder :=
  Machine.run (fun decoder symbol => (decoder.consumeCodedSymbol symbol.1 symbol.2).1) decoder
    symbols

variable (n len : Nat)

def consumedVectors (n len : Nat) (symbols : List (List Byte × List Byte)) : Set (Fin n → Byte) :=
  {coeffs | ∃ symbol ∈ symbols, symbol.1.length = n ∧ symbol.2.length = len ∧
    coeffs = vector n symbol.1}

theorem row_new : (new n len).row n = fun _ => 0 := by
  funext i j
  show ((replicate n (replicate n 0)).getD i []).getD j 0 = 0
  simp

theorem hasRow_new (n len i : Nat) : (new n len).hasRow.getD i false = false := by
  show (replicate n false).getD i false = false
  rw [getD_eq_getElem?_getD, getElem?_replicate]
  split <;> rfl

theorem reduced_new : (new n len).Reduced n len := by
  have pivots : (new n len).pivots n = ∅ :=
    Set.eq_empty_of_forall_notMem fun i => Bool.eq_false_iff.mp (hasRow_new n len i)
  refine ⟨rfl, rfl, length_replicate, ?_, length_replicate, ?_, length_replicate,
    ?_, ?_⟩
  · intro i bound
    simp [new, bound]
  · intro i bound
    simp [new, bound]
  · show 0 = (replicate n false).count true
    rw [count_replicate]
    rfl
  · rw [pivots, row_new]
    exact staircase_zero

theorem consumedVectors_nil : consumedVectors n len [] = ∅ :=
  Set.eq_empty_of_forall_notMem fun _ ⟨_, member, _⟩ => absurd member not_mem_nil

theorem consumedVectors_append {n len : Nat} (symbols : List (List Byte × List Byte))
    (symbol : List Byte × List Byte) :
    consumedVectors n len (symbols ++ [symbol]) =
      if symbol.1.length = n ∧ symbol.2.length = len
      then consumedVectors n len symbols ∪ {vector n symbol.1}
      else consumedVectors n len symbols := by
  ext coeffs
  split
  · rename_i wellFormed
    simp [consumedVectors, or_and_right, exists_or, wellFormed, or_comm]
  · rename_i malformed
    constructor
    · rintro ⟨other, member, length, codedLength, same⟩
      rcases mem_append.mp member with before | here
      · exact ⟨other, before, length, codedLength, same⟩
      · rw [mem_singleton.mp here] at length codedLength
        exact absurd ⟨length, codedLength⟩ malformed
    · rintro ⟨other, member, facts⟩
      exact ⟨other, mem_append_left _ member, facts⟩

theorem consumeAll_append (decoder : RlncDecoder) (symbols : List (List Byte × List Byte))
    (symbol : List Byte × List Byte) :
    decoder.consumeAll (symbols ++ [symbol]) =
      ((decoder.consumeAll symbols).consumeCodedSymbol symbol.1 symbol.2).1 :=
  Machine.run_append _ _ _ _

theorem consume_malformed {decoder : RlncDecoder} {n len : Nat} (form : decoder.Reduced n len)
    {coeffs coded : List Byte} (malformed : ¬ (coeffs.length = n ∧ coded.length = len)) :
    decoder.consumeCodedSymbol coeffs coded = (decoder, false) := by
  rw [consumeCodedSymbol, form.windowSize, form.symbolLen]
  split
  · rfl
  · rw [if_pos (not_and_or.mp malformed)]

theorem consumeAll_spec (symbols : List (List Byte × List Byte)) :
    ((new n len).consumeAll symbols).Reduced n len ∧
      rowSpace (((new n len).consumeAll symbols).row n) =
        Submodule.span Byte (consumedVectors n len symbols) ∧
      ∀ sources, (∀ symbol ∈ symbols, symbol.1.length = n → symbol.2.length = len →
          Codes n len sources symbol.1 symbol.2) →
        ((new n len).consumeAll symbols).Carries n len sources := by
  induction symbols using reverseRecOn with
  | nil =>
    refine ⟨reduced_new n len, ?_, fun sources _ i bound present => ?_⟩
    · rw [consumedVectors_nil, Submodule.span_empty]
      exact (congrArg rowSpace (row_new n len)).trans rowSpace_zero
    · exact absurd present (Bool.eq_false_iff.mp (hasRow_new n len i))
  | append_singleton symbols symbol ih =>
    obtain ⟨form, spans, carries⟩ := ih
    have earlier : ∀ sources, (∀ other ∈ symbols ++ [symbol], other.1.length = n →
        other.2.length = len → Codes n len sources other.1 other.2) →
        ((new n len).consumeAll symbols).Carries n len sources :=
      fun sources codes => carries sources
        fun other member => codes other (mem_append_left _ member)
    rw [consumeAll_append, consumedVectors_append]
    by_cases wellFormed : symbol.1.length = n ∧ symbol.2.length = len
    · have consumes := form.consume wellFormed.1 wellFormed.2
      refine ⟨consumes.form, ?_, fun sources codes => consumes.carries sources
        (earlier sources codes) (codes symbol
          (mem_append_right _ (mem_singleton_self _)) wellFormed.1 wellFormed.2)⟩
      rw [if_pos wellFormed, consumes.spans, spans, Submodule.span_union]
    · rw [consume_malformed form wellFormed, if_neg wellFormed]
      exact ⟨form, spans, earlier⟩

/-- Whatever symbols it has consumed, the decoder is in echelon form. The next symbol increases the
rank exactly if it has the right lengths and its coefficient vector is not in the span of those
consumed before. If the symbols are combinations of sources, as those of the encoder are, the
decoder returns the sources exactly from the full rank on. -/
theorem decoder_returns_sources (n len : Nat) (positive : 0 < n)
    (symbols : List (List Byte × List Byte)) :
    let decoder := (new n len).consumeAll symbols
    decoder.Reduced n len ∧
      (∀ coeffs coded,
        ((decoder.consumeCodedSymbol coeffs coded).2 = true ↔
          coeffs.length = n ∧ coded.length = len ∧
            vector n coeffs ∉ Submodule.span Byte (consumedVectors n len symbols)) ∧
        (decoder.consumeCodedSymbol coeffs coded).1.rank =
          if (decoder.consumeCodedSymbol coeffs coded).2 then decoder.rank + 1
          else decoder.rank) ∧
      ∀ sources : List (List Byte), sources.length = n →
        (∀ symbol ∈ sources, symbol.length = len) →
        ((∀ symbol ∈ symbols, symbol.1.length = n → symbol.2.length = len →
            Codes n len sources symbol.1 symbol.2) →
          decoder.extractSourceSymbols = if decoder.rank = n then some sources else none) ∧
        ∀ encoder, sources.foldlM RlncEncoder.pushSource (RlncEncoder.new n) = some encoder →
          ∀ seed, (encoder.produceCodedSymbol seed).1.length = n ∧
            Codes n len sources (encoder.produceCodedSymbol seed).1
              (encoder.produceCodedSymbol seed).2 := by
  intro decoder
  obtain ⟨form, spans, carries⟩ := consumeAll_spec n len symbols
  refine ⟨form, fun coeffs coded => ?_, fun sources count lengths => ⟨fun codes => ?_, ?_⟩⟩
  · by_cases wellFormed : coeffs.length = n ∧ coded.length = len
    · have consumes := form.consume wellFormed.1 wellFormed.2
      have increases := consumes.increases
      rw [spans] at increases
      exact ⟨increases.trans ⟨fun new => ⟨wellFormed.1, wellFormed.2, new⟩, fun facts => facts.2.2⟩,
        consumes.rank⟩
    · rw [consume_malformed form wellFormed]
      exact ⟨iff_of_false Bool.false_ne_true fun facts => wellFormed ⟨facts.1, facts.2.1⟩, rfl⟩
  · exact form.extract (carries sources codes) count lengths
  · intro encoder pushed seed
    obtain ⟨window, pushedSymbols, symbolLen⟩ := RlncEncoder.foldlM_pushSource sources pushed
      lengths fun some => absurd rfl some
    obtain ⟨windowSize, encoderSymbols, encoderLen⟩ := encoder
    have some : sources ≠ [] := ne_nil_of_length_pos (by omega)
    obtain rfl : windowSize = n := window
    obtain rfl : encoderSymbols = sources := pushedSymbols
    obtain rfl : encoderLen = len := symbolLen some
    exact RlncEncoder.codes_produceCodedSymbol _ seed count positive lengths

/-- Two sources that arrive uncoded, and a coded symbol behind them. -/
theorem two_sources_decoded :
    let sources := [[Byte.ofNat 5, Byte.ofNat 6], [Byte.ofNat 7, Byte.ofNat 8]]
    ∃ encoder : RlncEncoder,
      sources.foldlM RlncEncoder.pushSource (RlncEncoder.new 2) = some encoder ∧
      ((new 2 2).consumeAll [([1, 0], [Byte.ofNat 5, Byte.ofNat 6]),
        ([0, 1], [Byte.ofNat 7, Byte.ofNat 8]),
        encoder.produceCodedSymbol 1]).extractSourceSymbols = some sources := by
  intro sources
  let encoder : RlncEncoder := ⟨2, sources, 2⟩
  have pushed : sources.foldlM RlncEncoder.pushSource (RlncEncoder.new 2) = some encoder := by
    decide +kernel
  obtain ⟨_, _, decodes⟩ := decoder_returns_sources 2 2 (by decide)
    [([1, 0], [Byte.ofNat 5, Byte.ofNat 6]), ([0, 1], [Byte.ofNat 7, Byte.ofNat 8]),
      encoder.produceCodedSymbol 1]
  obtain ⟨extracts, codes⟩ := decodes sources rfl (by decide)
  refine ⟨encoder, pushed, (extracts ?_).trans (if_pos (by decide +kernel))⟩
  intro symbol member _ _
  simp only [mem_cons, not_mem_nil, or_false] at member
  rcases member with rfl | rfl | rfl
  · exact ⟨rfl, fun p => by simp [value, vector, sources, Fin.sum_univ_two]⟩
  · exact ⟨rfl, fun p => by simp [value, vector, sources, Fin.sum_univ_two]⟩
  · exact (codes encoder pushed 1).2

end RlncDecoder

end Yip.Transport
