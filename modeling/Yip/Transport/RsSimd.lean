/-
This file models `rs_simd.rs`, the vector kernels behind `mul_add_row`, and the dispatch of
`rs.rs` between them.
-/

import Yip.Lib.BitMatrix
import Yip.Lib.VectorLoop
import Yip.Transport.Rs

namespace Yip.Transport.RsSimd

open Gf256

/-! ### Registers and instructions -/

abbrev Register (lanes : Nat) := Vector Byte (16 * lanes)

section Instructions

variable {lanes : Nat}

def loadu (lanes : Nat) (memory : List Byte) (offset : Nat) : Option (Register lanes) :=
  VectorLoop.load (16 * lanes) memory offset

def set1Epi8 (lanes : Nat) (value : Byte) : Register lanes := Vector.replicate (16 * lanes) value

def andSi (a b : Register lanes) : Register lanes :=
  Vector.zipWith (fun x y => ⟨x.bits &&& y.bits⟩) a b

def xorSi (a b : Register lanes) : Register lanes := Vector.zipWith Byte.xor a b

def srliEpi16 (a : Register lanes) (imm : Nat) : Register lanes :=
  Vector.ofFn fun i =>
    let word := ((a[2 * (i.val / 2) + 1]).bits ++ (a[2 * (i.val / 2)]).bits) >>> imm
    if i.val % 2 = 0 then ⟨word.extractLsb' 0 8⟩ else ⟨word.extractLsb' 8 8⟩

def shrU8 (a : Register lanes) (n : Nat) : Register lanes :=
  a.map fun x : Byte => (⟨x.bits >>> n⟩ : Byte)

def shuffleEpi8 (a b : Register lanes) : Register lanes :=
  Vector.ofFn fun i =>
    if (b[i.val]).bits.msb then 0 else a[i.val / 16 * 16 + (b[i.val]).toNat % 16]

def lookupU8 (t idx : Register 1) : Register 1 :=
  Vector.ofFn fun i => if inside : (idx[i.val]).toNat < 16 then t[(idx[i.val]).toNat] else 0

def broadcastI32x4 (a : Register 1) : Register 4 := Vector.ofFn fun i => a[i.val % 16]

def fromLeBytes (bytes : List Byte) : Nat := ofBeBytes bytes.reverse

def toLeBytes (width value : Nat) : List Byte := (toBeBytes width value).reverse

def set1Epi64 (lanes value : Nat) : Register lanes :=
  Vector.ofFn fun i => (toLeBytes 8 value).getD (i.val % 8) 0

def gf2p8affineEpi64Epi8 (b : BitVec 8) (x a : Register lanes) : Register lanes :=
  Vector.ofFn fun i => ⟨BitMatrix.ofBits 8 fun j =>
    BitMatrix.parity ((a[i.val / 8 * 8 + (7 - j)]).bits &&& (x[i.val]).bits) ^^ b.getLsbD j⟩

end Instructions

/-! ### Tables -/

def gfniColumn (ck : Byte) (k : Nat) (matrixBytes : List Byte) : Nat → List Byte
  | 0 => matrixBytes
  | i + 1 =>
    let written := gfniColumn ck k matrixBytes i
    if ck.bits &&& 1#8 <<< i ≠ 0#8 then
      written.set (7 - i) ⟨(written.getD (7 - i) 0).bits ||| 1#8 <<< k⟩
    else written

def gfniBytes (coeff : Byte) : Nat → List Byte
  | 0 => List.replicate 8 0
  | k + 1 => gfniColumn (mul coeff ⟨1#8 <<< k⟩) k (gfniBytes coeff k) 8

def gfniMatrix (coeff : Byte) : Nat := fromLeBytes (gfniBytes coeff 8)

def nibbleRow (value : Nat → Byte) : Nat → List Byte
  | 0 => List.replicate 32 0
  | b + 1 => ((nibbleRow value b).set b (value b)).set (b + 16) (value b)

def loValue (coeff : Byte) (b : Nat) : Byte := mul coeff (Byte.ofNat b)

def hiValue (coeff : Byte) (b : Nat) : Byte := mul coeff ⟨(Byte.ofNat b).bits <<< 4⟩

structure SimdTables where
  lo : List (List Byte)
  hi : List (List Byte)
  gfni : List Nat

def tables : SimdTables where
  lo := (List.range 256).map fun c => nibbleRow (loValue (Byte.ofNat c)) 16
  hi := (List.range 256).map fun c => nibbleRow (hiValue (Byte.ofNat c)) 16
  gfni := (List.range 256).map fun c => gfniMatrix (Byte.ofNat c)

def nibbleTables (coeff : Byte) : List Byte × List Byte :=
  ((tables.lo.getD coeff.toNat []).take 16, (tables.hi.getD coeff.toNat []).take 16)

/-! ### Kernels -/

inductive Arch where
  | x86_64
  | aarch64
  | wasm32
  | other
  deriving DecidableEq, Repr

structure Target where
  arch : Arch
  ssse3 : Bool
  avx2 : Bool
  avx512bw : Bool
  avx512f : Bool
  gfni : Bool
  neon : Bool
  deriving DecidableEq, Repr

def nibbleProduct {lanes : Nat} (shift : Register lanes → Nat → Register lanes)
    (lookup : Register lanes → Register lanes → Register lanes)
    (tblLo tblHi data : Register lanes) : Register lanes :=
  let maskLo := set1Epi8 lanes (Byte.ofNat 0x0f)
  let vLo := andSi data maskLo
  let shifted := shift data 4
  let vHi := andSi shifted maskLo
  let pLo := lookup tblLo vLo
  let pHi := lookup tblHi vHi
  xorSi pLo pHi

def multiplyAccumulate {lanes : Nat} (product : Register lanes → Register lanes) (coeff : Byte)
    (src dst : List Byte) : Option (List Byte) :=
  VectorLoop.run (fun prevDst data => xorSi prevDst (product data))
    (fun d s => d.xor (mul s coeff)) src dst

def checked (coeff : Byte) (src dst : List Byte) (kernel : Option (List Byte)) :
    Option (List Byte) :=
  if src.length ≠ dst.length then none else if coeff = 0 then some dst else kernel

def fallback (coeff : Byte) (src dst : List Byte) : Option (List Byte) :=
  if src.length ≠ dst.length then none else some (mulSliceInto dst src coeff)

def nibbleKernel {lanes : Nat} (shift : Register lanes → Nat → Register lanes)
    (lookup : Register lanes → Register lanes → Register lanes)
    (load : List Byte → Option (Register lanes)) (rows : List Byte × List Byte) (coeff : Byte)
    (src dst : List Byte) : Option (List Byte) :=
  checked coeff src dst do
    let tblLo ← load rows.1
    let tblHi ← load rows.2
    multiplyAccumulate (nibbleProduct shift lookup tblLo tblHi) coeff src dst

def tableRows (coeff : Byte) : List Byte × List Byte :=
  (tables.lo.getD coeff.toNat [], tables.hi.getD coeff.toNat [])

def mulAddSsse3 (target : Target) (coeff : Byte) (src dst : List Byte) : Option (List Byte) :=
  match target.arch with
  | .x86_64 =>
    nibbleKernel srliEpi16 shuffleEpi8 (loadu 1 · 0) (tableRows coeff) coeff src dst
  | _ => fallback coeff src dst

def mulAddAvx2 (target : Target) (coeff : Byte) (src dst : List Byte) : Option (List Byte) :=
  match target.arch with
  | .x86_64 =>
    nibbleKernel srliEpi16 shuffleEpi8 (loadu 2 · 0) (tableRows coeff) coeff src dst
  | _ => fallback coeff src dst

def mulAddAvx512 (target : Target) (coeff : Byte) (src dst : List Byte) : Option (List Byte) :=
  match target.arch with
  | .x86_64 =>
    nibbleKernel srliEpi16 shuffleEpi8 (fun row => (loadu 1 row 0).map broadcastI32x4)
      (tableRows coeff) coeff src dst
  | _ => fallback coeff src dst

def mulAddNeon (target : Target) (coeff : Byte) (src dst : List Byte) : Option (List Byte) :=
  match target.arch with
  | .aarch64 =>
    nibbleKernel shrU8 lookupU8 (loadu 1 · 0) (nibbleTables coeff) coeff src dst
  | _ => fallback coeff src dst

def mulAddWasm128 (target : Target) (coeff : Byte) (src dst : List Byte) : Option (List Byte) :=
  match target.arch with
  | .wasm32 =>
    nibbleKernel shrU8 lookupU8 (loadu 1 · 0) (nibbleTables coeff) coeff src dst
  | _ => fallback coeff src dst

def mulAddGfniLanes (lanes mat : Nat) (coeff : Byte) (src dst : List Byte) : Option (List Byte) :=
  let vMat := set1Epi64 lanes mat
  multiplyAccumulate (fun data => gf2p8affineEpi64Epi8 0#8 data vMat) coeff src dst

def mulAddGfni512 : Nat → Byte → List Byte → List Byte → Option (List Byte) := mulAddGfniLanes 4

def mulAddGfni256 : Nat → Byte → List Byte → List Byte → Option (List Byte) := mulAddGfniLanes 2

def mulAddGfni128 : Nat → Byte → List Byte → List Byte → Option (List Byte) := mulAddGfniLanes 1

def mulAddGfni (target : Target) (coeff : Byte) (src dst : List Byte) : Option (List Byte) :=
  match target.arch with
  | .x86_64 =>
    checked coeff src dst
      (let mat := tables.gfni.getD coeff.toNat 0
      if target.avx512f then mulAddGfni512 mat coeff src dst
      else if target.avx2 then mulAddGfni256 mat coeff src dst
      else mulAddGfni128 mat coeff src dst)
  | _ => fallback coeff src dst

inductive Kernel where
  | ssse3
  | avx2
  | avx512
  | gfni
  | neon
  | wasm128
  deriving DecidableEq, Repr

def Kernel.mulAdd (target : Target) :
    Kernel → Byte → List Byte → List Byte → Option (List Byte)
  | .ssse3 => mulAddSsse3 target
  | .avx2 => mulAddAvx2 target
  | .avx512 => mulAddAvx512 target
  | .gfni => mulAddGfni target
  | .neon => mulAddNeon target
  | .wasm128 => mulAddWasm128 target

/-! ### Dispatch -/

def ssse3Supported (target : Target) : Bool := target.arch = .x86_64 && target.ssse3

def avx2Supported (target : Target) : Bool := target.arch = .x86_64 && target.avx2

def avx512bwSupported (target : Target) : Bool := target.arch = .x86_64 && target.avx512bw

def gfniSupported (target : Target) : Bool := target.arch = .x86_64 && target.gfni

def neonSupported (target : Target) : Bool := target.arch = .aarch64 && target.neon

def wasmSimdSupported (target : Target) : Bool := target.arch = .wasm32

def mulAddRow (target : Target) (coeff : Byte) (src dst : List Byte) : Option (List Byte) :=
  if src.length ≠ dst.length then none
  else if coeff = 0 then some dst
  else if coeff = 1 then some (List.zipWith Byte.xor dst src)
  else
    match target.arch with
    | .x86_64 =>
      if gfniSupported target then mulAddGfni target coeff src dst
      else if avx512bwSupported target then mulAddAvx512 target coeff src dst
      else if avx2Supported target then mulAddAvx2 target coeff src dst
      else if ssse3Supported target then mulAddSsse3 target coeff src dst
      else some (mulSliceInto dst src coeff)
    | .aarch64 =>
      if neonSupported target then mulAddNeon target coeff src dst
      else some (mulSliceInto dst src coeff)
    | .wasm32 =>
      if wasmSimdSupported target then mulAddWasm128 target coeff src dst
      else some (mulSliceInto dst src coeff)
    | .other => some (mulSliceInto dst src coeff)

/-! ### The nibble product -/

section Nibbles

variable {lanes : Nat}

def HoldsTable (value : Nat → Byte) (table : Register lanes) : Prop :=
  ∀ j (inside : j < 16 * lanes), table[j] = value (j % 16)

def ShiftsHalf (shift : Register lanes → Nat → Register lanes) : Prop :=
  ∀ (data : Register lanes) i (inside : i < 16 * lanes),
    ((shift data 4)[i]).bits &&& 0x0f#8 = (data[i]).bits >>> 4

def Selects (lookup : Register lanes → Register lanes → Register lanes) : Prop :=
  ∀ (value : Nat → Byte) (table index : Register lanes), HoldsTable value table →
    ∀ i (inside : i < 16 * lanes), (index[i]).toNat < 16 →
      (lookup table index)[i] = value (index[i]).toNat

theorem append_low_half (hi lo : BitVec 8) :
    ((hi ++ lo) >>> 4).extractLsb' 0 8 &&& 0x0f#8 = lo >>> 4 := by
  ext i inside
  rw [BitVec.getElem_and, BitVec.getElem_extractLsb', BitVec.getLsbD_ushiftRight,
    BitVec.getLsbD_append, BitVec.getElem_ushiftRight]
  interval_cases i <;> simp

theorem append_high_half (hi lo : BitVec 8) :
    ((hi ++ lo) >>> 4).extractLsb' 8 8 &&& 0x0f#8 = hi >>> 4 := by
  ext i inside
  rw [BitVec.getElem_and, BitVec.getElem_extractLsb', BitVec.getLsbD_ushiftRight,
    BitVec.getLsbD_append, BitVec.getElem_ushiftRight]
  interval_cases i <;> simp

theorem srliEpi16_shiftsHalf : ShiftsHalf (@srliEpi16 lanes) := by
  intro data i inside
  rw [srliEpi16, Vector.getElem_ofFn]
  rcases Nat.even_or_odd' i with ⟨k, rfl | rfl⟩
  · simp only [Nat.mul_mod_right, if_true, Nat.mul_div_cancel_left k two_pos]
    exact append_low_half _ _
  · have half : (2 * k + 1) / 2 = k := by omega
    have odd : ¬ (2 * k + 1) % 2 = 0 := by omega
    simp only [half, if_neg odd]
    exact append_high_half _ _

theorem shrU8_shiftsHalf : ShiftsHalf (@shrU8 lanes) := by
  have masked : ∀ bits : BitVec 8, bits >>> 4 &&& 0x0f#8 = bits >>> 4 := by decide +kernel
  intro data i inside
  rw [shrU8, Vector.getElem_map]
  exact masked _

theorem shuffleEpi8_selects : Selects (@shuffleEpi8 lanes) := by
  intro value table index holds i inside small
  have clear : ∀ bits : BitVec 8, bits.toNat < 16 → bits.msb = false := by decide +kernel
  rw [shuffleEpi8, Vector.getElem_ofFn]
  simp only [clear _ small, Bool.false_eq_true, if_false]
  rw [holds]
  congr 1
  omega

theorem lookupU8_selects : Selects lookupU8 := by
  intro value table index holds i inside small
  rw [lookupU8, Vector.getElem_ofFn, dif_pos small, holds, Nat.mod_eq_of_lt small]

theorem eq_add_halves (x : Byte) :
    x = add (Byte.ofNat (x.bits &&& 0x0f#8).toNat)
      ⟨(Byte.ofNat (x.bits >>> 4).toNat).bits <<< 4⟩ := by
  have all : ∀ bits : BitVec 8, (⟨bits⟩ : Byte) = add (Byte.ofNat (bits &&& 0x0f#8).toNat)
      ⟨(Byte.ofNat (bits >>> 4).toNat).bits <<< 4⟩ := by decide +kernel
  exact all x.bits

theorem loValue_add_hiValue (coeff x : Byte) :
    (loValue coeff (x.bits &&& 0x0f#8).toNat).xor (hiValue coeff (x.bits >>> 4).toNat) =
      mul x coeff := by
  have split := congrArg (mul coeff) (eq_add_halves x)
  rw [mul_add'] at split
  rw [mul_comm', split]
  rfl

theorem getElem_nibbleProduct {shift : Register lanes → Nat → Register lanes}
    {lookup : Register lanes → Register lanes → Register lanes} (shifts : ShiftsHalf shift)
    (selects : Selects lookup) {coeff : Byte} {tblLo tblHi : Register lanes}
    (lo : HoldsTable (loValue coeff) tblLo) (hi : HoldsTable (hiValue coeff) tblHi)
    (data : Register lanes) (i : Nat) (inside : i < 16 * lanes) :
    (nibbleProduct shift lookup tblLo tblHi data)[i] = mul data[i] coeff := by
  have mask : ∀ bits : BitVec 8, (bits &&& 0x0f#8).toNat < 16 := by decide +kernel
  have masked : ∀ (register : Register lanes),
      (andSi register (set1Epi8 lanes (Byte.ofNat 0x0f)))[i] =
        ⟨(register[i]).bits &&& 0x0f#8⟩ := by
    intro register
    rw [andSi, Vector.getElem_zipWith, set1Epi8, Vector.getElem_replicate]
    rfl
  have small : ∀ (register : Register lanes),
      ((andSi register (set1Epi8 lanes (Byte.ofNat 0x0f)))[i]).toNat < 16 := by
    intro register
    rw [masked]
    exact mask _
  rw [nibbleProduct, xorSi, Vector.getElem_zipWith, selects _ _ _ lo i inside (small _),
    selects _ _ _ hi i inside (small _), masked, masked, ← loValue_add_hiValue]
  simp only [Byte.toNat, shifts data i inside]

end Nibbles

/-! ### What the nibble tables hold -/

section NibbleTables

variable {value : Nat → Byte}

theorem length_nibbleRow (count : Nat) : (nibbleRow value count).length = 32 := by
  induction count with
  | zero => exact List.length_replicate
  | succ count ih =>
    rw [nibbleRow, List.length_set, List.length_set, ih]

theorem getD_nibbleRow {count j : Nat} (bound : count ≤ 16) (written : j % 16 < count)
    (inside : j < 32) : (nibbleRow value count).getD j 0 = value (j % 16) := by
  induction count with
  | zero => exact absurd written (Nat.not_lt_zero _)
  | succ count ih =>
    rw [nibbleRow, ArrayList.getD_set _ _ _ _ _ (by rw [List.length_set, length_nibbleRow]; omega),
      ArrayList.getD_set _ _ _ _ _ (by rw [length_nibbleRow]; omega)]
    by_cases last : j % 16 = count
    · rw [last]
      split_ifs
      · rfl
      · rfl
      · omega
    · rw [if_neg (by omega), if_neg (by omega)]
      exact ih (by omega) (by omega)

theorem loadu_nibbleRow (lanes : Nat) {len : Nat} (wide : 16 * lanes ≤ len) (bound : len ≤ 32) :
    ∃ table : Register lanes, loadu lanes ((nibbleRow value 16).take len) 0 = some table ∧
      HoldsTable value table := by
  have length : ((nibbleRow value 16).take len).length = len := by
    rw [List.length_take, length_nibbleRow]
    omega
  obtain ⟨table, loaded, entries⟩ := VectorLoop.load_eq_some
    (show 0 + 16 * lanes ≤ ((nibbleRow value 16).take len).length by omega)
  refine ⟨table, loaded, fun j inside => ?_⟩
  have entry := entries j inside
  rw [Nat.zero_add, List.getElem?_take_of_lt (by omega)] at entry
  have read : (nibbleRow value 16).getD j 0 = value (j % 16) :=
    getD_nibbleRow (Nat.le_refl 16) (Nat.mod_lt j (by decide)) (by omega)
  rw [← read, List.getD_eq_getElem?_getD, entry, Option.getD_some]

theorem loadu_row (lanes : Nat) (wide : 16 * lanes ≤ 32) :
    ∃ table : Register lanes, loadu lanes (nibbleRow value 16) 0 = some table ∧
      HoldsTable value table := by
  rw [← List.take_of_length_le (Nat.le_of_eq (length_nibbleRow 16))]
  exact loadu_nibbleRow lanes wide (Nat.le_refl 32)

theorem broadcastI32x4_holds {table : Register 1} (holds : HoldsTable value table) :
    HoldsTable value (broadcastI32x4 table) := by
  intro j inside
  rw [broadcastI32x4, Vector.getElem_ofFn, holds, Nat.mod_mod]

end NibbleTables

theorem getD_map_range {α : Type} (entry : Nat → α) (fallback : α) (coeff : Byte) :
    ((List.range 256).map entry).getD coeff.toNat fallback = entry coeff.toNat := by
  rw [List.getD_eq_getElem _ _ (by simpa using coeff.toNat_lt), List.getElem_map,
    List.getElem_range]

theorem tableRows_eq (coeff : Byte) :
    tableRows coeff = (nibbleRow (loValue coeff) 16, nibbleRow (hiValue coeff) 16) := by
  rw [tableRows, tables, getD_map_range, getD_map_range, Byte.ofNat_toNat]

theorem nibbleTables_eq (coeff : Byte) :
    nibbleTables coeff =
      ((nibbleRow (loValue coeff) 16).take 16, (nibbleRow (hiValue coeff) 16).take 16) := by
  rw [nibbleTables, tables, getD_map_range, getD_map_range, Byte.ofNat_toNat]

/-! ### The affine product -/

section Affine

variable {coeff : Byte}

theorem and_one_shiftLeft_ne_zero (x : BitVec 8) {i : Nat} (inside : i < 8) :
    x &&& 1#8 <<< i ≠ 0#8 ↔ x.getLsbD i = true := by
  have all : ∀ x : BitVec 8, ∀ i < 8, (x &&& 1#8 <<< i ≠ 0#8 ↔ x.getLsbD i = true) := by
    decide +kernel
  exact all x i inside

theorem gfniColumn_spec (ck : Byte) (k : Nat) {matrixBytes : List Byte}
    (length : matrixBytes.length = 8) {count : Nat} (bound : count ≤ 8) :
    (gfniColumn ck k matrixBytes count).length = 8 ∧
      ∀ i < 8, ∀ j < 8, ((gfniColumn ck k matrixBytes count).getD (7 - i) 0).bits.getLsbD j =
        ((matrixBytes.getD (7 - i) 0).bits.getLsbD j ||
          (decide (i < count) && decide (j = k) && ck.bits.getLsbD i)) := by
  induction count with
  | zero => exact ⟨length, fun i _ j _ => by simp [gfniColumn]⟩
  | succ count ih =>
    obtain ⟨whole, bits⟩ := ih (by omega)
    have later : ∀ i, i ≠ count → (i < count + 1 ↔ i < count) := by omega
    rw [gfniColumn]
    split_ifs with set
    · have bit := (and_one_shiftLeft_ne_zero ck.bits (by omega)).mp set
      refine ⟨by rw [List.length_set, whole], fun i inside j column => ?_⟩
      rw [ArrayList.getD_set _ _ _ _ _ (by omega)]
      by_cases here : i = count
      · subst here
        rw [if_pos rfl, BitVec.getLsbD_or, bits i inside j column,
          BitMatrix.getLsbD_one_shiftLeft, bit]
        simp [column]
      · rw [if_neg (by omega), bits i inside j column]
        simp only [later i here]
    · have bit : ck.bits.getLsbD count = false := by
        rwa [and_one_shiftLeft_ne_zero ck.bits (by omega), Bool.not_eq_true] at set
      refine ⟨whole, fun i inside j column => ?_⟩
      rw [bits i inside j column]
      by_cases here : i = count
      · rw [here, bit, Bool.and_false, Bool.and_false]
      · simp only [later i here]

theorem gfniBytes_spec {count : Nat} (bound : count ≤ 8) :
    (gfniBytes coeff count).length = 8 ∧
      ∀ i < 8, ∀ j < 8, ((gfniBytes coeff count).getD (7 - i) 0).bits.getLsbD j =
        (decide (j < count) && (mul coeff ⟨1#8 <<< j⟩).bits.getLsbD i) := by
  induction count with
  | zero =>
    refine ⟨List.length_replicate, fun i _ j _ => ?_⟩
    have blank : (gfniBytes coeff 0).getD (7 - i) 0 = ⟨0#8⟩ := List.getD_replicate _ (by omega)
    rw [blank]
    simp
  | succ count ih =>
    obtain ⟨whole, bits⟩ := ih (by omega)
    obtain ⟨length, written⟩ :=
      gfniColumn_spec (mul coeff ⟨1#8 <<< count⟩) count whole (Nat.le_refl 8)
    refine ⟨length, fun i inside j column => ?_⟩
    rw [gfniBytes, written i inside j column, bits i inside j column, decide_eq_true inside]
    by_cases here : j = count
    · simp [here]
    · have earlier : j < count + 1 ↔ j < count := by omega
      simp only [here, earlier, decide_false, Bool.and_false, Bool.false_and, Bool.or_false]

theorem toLeBytes_gfniMatrix : toLeBytes 8 (gfniMatrix coeff) = gfniBytes coeff 8 := by
  have length : (gfniBytes coeff 8).reverse.length = 8 := by
    rw [List.length_reverse, (gfniBytes_spec (Nat.le_refl 8)).1]
  have read := toBeBytes_ofBeBytes (gfniBytes coeff 8).reverse
  rw [length] at read
  rw [toLeBytes, gfniMatrix, fromLeBytes, read, List.reverse_reverse]

theorem parity_gfniBytes {i : Nat} (inside : i < 8) (x : BitVec 8) :
    BitMatrix.parity (((gfniBytes coeff 8).getD (7 - i) 0).bits &&& x) =
      (mul coeff ⟨x⟩).bits.getLsbD i := by
  refine BitMatrix.parity_and_eq (fun x => (mul coeff ⟨x⟩).bits.getLsbD i) ?_ ?_ x
  · intro x y
    have product := mul_add' coeff ⟨x⟩ ⟨y⟩
    show (mul coeff (add ⟨x⟩ ⟨y⟩)).bits.getLsbD i = _
    rw [product]
    exact BitVec.getLsbD_xor
  · intro j column
    rw [(gfniBytes_spec (Nat.le_refl 8)).2 i inside j column, decide_eq_true column, Bool.true_and]

theorem getElem_gf2p8affine {lanes : Nat} (data : Register lanes) (i : Nat)
    (inside : i < 16 * lanes) :
    (gf2p8affineEpi64Epi8 0#8 data (set1Epi64 lanes (gfniMatrix coeff)))[i] =
      mul data[i] coeff := by
  rw [gf2p8affineEpi64Epi8, Vector.getElem_ofFn, mul_comm']
  apply Byte.ext
  apply BitVec.eq_of_getLsbD_eq
  intro j column
  have row : ((set1Epi64 lanes (gfniMatrix coeff))[i / 8 * 8 + (7 - j)]) =
      (gfniBytes coeff 8).getD (7 - j) 0 := by
    have byte : (i / 8 * 8 + (7 - j)) % 8 = 7 - j := by omega
    rw [set1Epi64, Vector.getElem_ofFn, toLeBytes_gfniMatrix, byte]
  rw [BitMatrix.getLsbD_ofBits _ column, row, parity_gfniBytes column, BitVec.getLsbD_zero,
    Bool.xor_false]

end Affine

/-! ### The kernels -/

section Kernels

variable {lanes : Nat} {coeff : Byte} {src dst : List Byte}

theorem multiplyAccumulate_eq {product : Register lanes → Register lanes}
    (multiplies : ∀ (data : Register lanes) i (inside : i < 16 * lanes),
      (product data)[i] = mul data[i] coeff)
    (nonzero : coeff ≠ 0) (length : src.length = dst.length) :
    multiplyAccumulate product coeff src dst = some (mulSliceInto dst src coeff) := by
  rw [mulSliceInto, if_neg nonzero]
  refine VectorLoop.run_eq_zipWith length fun prevDst data i inside => ?_
  rw [xorSi, Vector.getElem_zipWith, multiplies]

theorem checked_eq {kernel : Option (List Byte)}
    (right : coeff ≠ 0 → src.length = dst.length → kernel = some (mulSliceInto dst src coeff)) :
    checked coeff src dst kernel = fallback coeff src dst := by
  rw [checked, fallback]
  by_cases length : src.length = dst.length
  · rw [if_neg (not_not_intro length), if_neg (not_not_intro length)]
    by_cases zero : coeff = 0
    · rw [if_pos zero, mulSliceInto, if_pos zero]
    · rw [if_neg zero, right zero length]
  · rw [if_pos length, if_pos length]

theorem nibbleKernel_eq {shift : Register lanes → Nat → Register lanes}
    {lookup : Register lanes → Register lanes → Register lanes} (shifts : ShiftsHalf shift)
    (selects : Selects lookup) {load : List Byte → Option (Register lanes)}
    {loRow hiRow : List Byte}
    (lo : ∃ table, load loRow = some table ∧ HoldsTable (loValue coeff) table)
    (hi : ∃ table, load hiRow = some table ∧ HoldsTable (hiValue coeff) table) :
    nibbleKernel shift lookup load (loRow, hiRow) coeff src dst = fallback coeff src dst := by
  obtain ⟨tblLo, loadedLo, holdsLo⟩ := lo
  obtain ⟨tblHi, loadedHi, holdsHi⟩ := hi
  refine checked_eq fun nonzero length => ?_
  rw [loadedLo, loadedHi]
  exact multiplyAccumulate_eq (getElem_nibbleProduct shifts selects holdsLo holdsHi) nonzero length

variable (target : Target)

theorem mulAddSsse3_eq : mulAddSsse3 target coeff src dst = fallback coeff src dst := by
  rw [mulAddSsse3]
  split
  · rw [tableRows_eq]
    refine nibbleKernel_eq srliEpi16_shiftsHalf shuffleEpi8_selects ?_ ?_
    · exact loadu_row 1 (by decide)
    · exact loadu_row 1 (by decide)
  · rfl

theorem mulAddAvx2_eq : mulAddAvx2 target coeff src dst = fallback coeff src dst := by
  rw [mulAddAvx2]
  split
  · rw [tableRows_eq]
    refine nibbleKernel_eq srliEpi16_shiftsHalf shuffleEpi8_selects ?_ ?_
    · exact loadu_row 2 (by decide)
    · exact loadu_row 2 (by decide)
  · rfl

theorem loadu_broadcast (value : Nat → Byte) :
    ∃ table, (loadu 1 (nibbleRow value 16) 0).map broadcastI32x4 = some table ∧
      HoldsTable value table := by
  obtain ⟨table, loaded, holds⟩ := loadu_row 1 (by decide)
  exact ⟨broadcastI32x4 table, by rw [loaded, Option.map_some], broadcastI32x4_holds holds⟩

theorem mulAddAvx512_eq : mulAddAvx512 target coeff src dst = fallback coeff src dst := by
  rw [mulAddAvx512]
  split
  · rw [tableRows_eq]
    refine nibbleKernel_eq srliEpi16_shiftsHalf shuffleEpi8_selects ?_ ?_
    · exact loadu_broadcast _
    · exact loadu_broadcast _
  · rfl

theorem mulAddNeon_eq : mulAddNeon target coeff src dst = fallback coeff src dst := by
  rw [mulAddNeon]
  split
  · rw [nibbleTables_eq]
    refine nibbleKernel_eq shrU8_shiftsHalf lookupU8_selects ?_ ?_
    · exact loadu_nibbleRow 1 (by decide) (by decide)
    · exact loadu_nibbleRow 1 (by decide) (by decide)
  · rfl

theorem mulAddWasm128_eq : mulAddWasm128 target coeff src dst = fallback coeff src dst := by
  rw [mulAddWasm128]
  split
  · rw [nibbleTables_eq]
    refine nibbleKernel_eq shrU8_shiftsHalf lookupU8_selects ?_ ?_
    · exact loadu_nibbleRow 1 (by decide) (by decide)
    · exact loadu_nibbleRow 1 (by decide) (by decide)
  · rfl

theorem mulAddGfniLanes_eq (nonzero : coeff ≠ 0) (length : src.length = dst.length) :
    mulAddGfniLanes lanes (gfniMatrix coeff) coeff src dst = some (mulSliceInto dst src coeff) :=
  multiplyAccumulate_eq getElem_gf2p8affine nonzero length

theorem mulAddGfni_eq : mulAddGfni target coeff src dst = fallback coeff src dst := by
  rw [mulAddGfni]
  split
  · refine checked_eq fun nonzero length => ?_
    rw [tables, getD_map_range, Byte.ofNat_toNat]
    split_ifs
    · exact mulAddGfniLanes_eq nonzero length
    · exact mulAddGfniLanes_eq nonzero length
    · exact mulAddGfniLanes_eq nonzero length
  · rfl

theorem mulAddRow_eq :
    mulAddRow target coeff src dst =
      if src.length ≠ dst.length then none else some (Rs.mulAddRow coeff src dst) := by
  rw [mulAddRow, Rs.mulAddRow]
  by_cases length : src.length ≠ dst.length
  · rw [if_pos length, if_pos length]
  rw [if_neg length, if_neg length]
  by_cases zero : coeff = 0
  · rw [if_pos zero, if_pos zero]
  rw [if_neg zero, if_neg zero]
  by_cases one : coeff = 1
  · rw [if_pos one, if_pos one]
  have scalar : fallback coeff src dst = some (mulSliceInto dst src coeff) := if_neg length
  rw [if_neg one, if_neg one, mulAddGfni_eq, mulAddAvx512_eq, mulAddAvx2_eq, mulAddSsse3_eq,
    mulAddNeon_eq, mulAddWasm128_eq, scalar]
  cases target.arch with
  | x86_64 => simp only [ite_self]
  | aarch64 => simp only [ite_self]
  | wasm32 => simp only [ite_self]
  | other => rfl

theorem mulSliceInto_eq_mulAddRow : mulSliceInto dst src coeff = Rs.mulAddRow coeff src dst := by
  rw [Rs.mulAddRow]
  split_ifs with zero one
  · rw [mulSliceInto, if_pos zero]
  · have unit : ∀ d s : Byte, add d (mul s coeff) = d.xor s := by
      intro d s
      rw [one, mul_eq, mul_one]
      rfl
    rw [mulSliceInto, if_neg zero]
    simp only [unit]
  · rfl

theorem Kernel.mulAdd_eq (kernel : Kernel) :
    kernel.mulAdd target coeff src dst = fallback coeff src dst := by
  cases kernel with
  | ssse3 => exact mulAddSsse3_eq target
  | avx2 => exact mulAddAvx2_eq target
  | avx512 => exact mulAddAvx512_eq target
  | gfni => exact mulAddGfni_eq target
  | neon => exact mulAddNeon_eq target
  | wasm128 => exact mulAddWasm128_eq target

end Kernels

/-- On every target and for slices of every length, each kernel, and the dispatch between them,
panics when the lengths differ and otherwise leaves in the destination the bytes that the scalar
`mul_slice_into` leaves. No load or store goes outside its slice. -/
theorem kernels_eq_scalar (target : Target) (coeff : Byte) (src dst : List Byte) :
    (∀ kernel : Kernel, kernel.mulAdd target coeff src dst =
        if src.length = dst.length then some (mulSliceInto dst src coeff) else none) ∧
      mulAddRow target coeff src dst =
        if src.length = dst.length then some (mulSliceInto dst src coeff) else none := by
  rw [mulAddRow_eq, ← mulSliceInto_eq_mulAddRow, ite_not]
  refine ⟨fun kernel => ?_, rfl⟩
  rw [Kernel.mulAdd_eq, fallback, ite_not]

end Yip.Transport.RsSimd
