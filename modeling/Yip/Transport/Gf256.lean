/-
This file models `gf256.rs`, the arithmetic of GF(256) with reducing polynomial 0x11D and
primitive element 2, and shows that the table arithmetic is a field.
-/

import Mathlib.Algebra.Field.MinimalAxioms
import Yip.Basic
import Yip.Lib.Lists

namespace Yip.Transport.Gf256

/-! ### Tables -/

def poly : Byte := Byte.ofNat 0x1d

def double (x : Byte) : Byte :=
  let hi := x.bits &&& 0x80#8
  let shifted : Byte := ⟨x.bits <<< 1⟩
  if hi ≠ 0#8 then shifted.xor poly else shifted

structure Tables where
  exp : List Byte
  log : List Nat

def fill : Nat → Tables × Byte
  | 0 => (⟨List.replicate 512 0, List.replicate 256 0⟩, 1)
  | i + 1 =>
    let (built, x) := fill i
    (⟨built.exp.set i x, built.log.set x.toNat i⟩, double x)

def extend (exp : List Byte) : Nat → List Byte
  | 0 => exp
  | i + 1 =>
    let extended := extend exp i
    extended.set (255 + i) (extended.getD i 0)

def tables : Tables :=
  let built := (fill 255).1
  { built with exp := extend built.exp 257 }

/-! ### Operations -/

def add (a b : Byte) : Byte := a.xor b

def mul (a b : Byte) : Byte :=
  if a = 0 ∨ b = 0 then 0
  else tables.exp.getD (tables.log.getD a.toNat 0 + tables.log.getD b.toNat 0) 0

def inv (a : Byte) : Byte :=
  if a = 0 then 0 else tables.exp.getD (255 - tables.log.getD a.toNat 0) 0

def mulSliceInto (dst src : List Byte) (c : Byte) : List Byte :=
  if c = 0 then dst else List.zipWith (fun d s => add d (mul s c)) dst src

/-! ### Powers of the primitive element -/

variable (i : Nat) (exp : List Byte) (a : Byte) (n : Nat) (x y : Byte)

def pow (n : Nat) : Byte := double^[n] 1

theorem pow_succ : pow (n + 1) = double (pow n) := Function.iterate_succ_apply' double n 1

theorem iterate_pow (m n : Nat) : double^[m] (pow n) = pow (m + n) :=
  (Function.iterate_add_apply double m n 1).symm

theorem double_bits (x : Byte) :
    (double x).bits = (x.bits <<< 1) ^^^ if x.bits.msb then 0x1d#8 else 0#8 := by
  have all : ∀ bits : BitVec 8,
      (double ⟨bits⟩).bits = (bits <<< 1) ^^^ if bits.msb then 0x1d#8 else 0#8 := by
    decide +kernel
  exact all x.bits

theorem double_xor : double (x.xor y) = (double x).xor (double y) := by
  have reduction : ∀ p q : Bool, (if p ^^ q then 0x1d#8 else 0#8) =
      (if p then 0x1d#8 else 0#8) ^^^ (if q then 0x1d#8 else 0#8) := by decide
  apply Byte.ext
  rw [Byte.bits_xor, double_bits, double_bits, double_bits, Byte.bits_xor, BitVec.msb_xor,
    reduction, BitVec.shiftLeft_xor_distrib]
  ac_rfl

theorem iterate_double_xor : double^[n] (x.xor y) = (double^[n] x).xor (double^[n] y) := by
  induction n generalizing x y with
  | zero => rfl
  | succ n ih =>
    rw [Function.iterate_succ_apply, double_xor, ih]
    rfl

theorem iterate_double_zero : double^[n] 0 = 0 :=
  Function.iterate_fixed (by decide) n

theorem pow_period : pow (255 + n) = pow n := by
  have one : double^[255] 1 = 1 := by decide +kernel
  rw [pow, Nat.add_comm, Function.iterate_add_apply, one, pow]

theorem eq_zero_of_double_eq_zero (x : Byte) (zero : double x = 0) : x = 0 := by
  have all : ∀ bits : BitVec 8, double ⟨bits⟩ = 0 → (⟨bits⟩ : Byte) = 0 := by decide +kernel
  exact all x.bits zero

theorem pow_ne_zero : pow n ≠ 0 := by
  induction n with
  | zero => decide
  | succ n ih =>
    rw [pow_succ]
    exact fun zero => ih (eq_zero_of_double_eq_zero _ zero)

theorem double_injective : Function.Injective double := by
  intro x y equal
  have difference : double (x.xor y) = 0 := by
    rw [double_xor, equal]
    exact Byte.ext BitVec.xor_self
  have zero : (x.xor y).bits = 0#8 := congrArg Byte.bits (eq_zero_of_double_eq_zero _ difference)
  exact Byte.ext (BitVec.xor_eq_zero_iff.mp zero)

theorem pow_ne_pow {i j : Nat} (less : i < j) (bound : j < 255) : pow i ≠ pow j := by
  have primitive : (1 : Byte) ∉ List.iterate double (double 1) 254 := by decide +kernel
  intro equal
  obtain ⟨gap, rfl⟩ := Nat.exists_eq_add_of_lt less
  have returned : pow (gap + 1) = 1 := by
    have shifted : double^[i] (pow (gap + 1)) = double^[i] 1 := by
      rw [iterate_pow, ← Nat.add_assoc, ← equal, pow]
    exact double_injective.iterate i shifted
  apply primitive
  rw [List.mem_iterate]
  exact ⟨gap, by omega, returned.symm⟩

/-! ### What the tables hold -/

theorem fill_snd : (fill n).2 = pow n := by
  induction n with
  | zero => rfl
  | succ n ih => rw [pow_succ, ← ih]; rfl

theorem length_fill : (fill n).1.exp.length = 512 ∧ (fill n).1.log.length = 256 := by
  induction n with
  | zero => exact ⟨List.length_replicate, List.length_replicate⟩
  | succ n ih => simpa [fill] using ih

theorem fill_exp (n i : Nat) (bound : n ≤ 512) (less : i < n) :
    (fill n).1.exp.getD i 0 = pow i := by
  induction n with
  | zero => omega
  | succ n ih =>
    have written : (fill (n + 1)).1.exp = (fill n).1.exp.set n (fill n).2 := rfl
    rw [written, ArrayList.getD_set _ _ _ _ _ (by rw [(length_fill n).1]; omega), fill_snd]
    split
    · rename_i equal
      rw [equal]
    · exact ih (by omega) (by omega)

theorem fill_log (n i : Nat) (bound : n ≤ 255) (less : i < n) :
    (fill n).1.log.getD (pow i).toNat 0 = i := by
  induction n with
  | zero => omega
  | succ n ih =>
    have written : (fill (n + 1)).1.log = (fill n).1.log.set (fill n).2.toNat n := rfl
    rw [written, ArrayList.getD_set _ _ _ _ _ (by rw [(length_fill n).2]; exact Byte.toNat_lt _),
      fill_snd]
    rcases Nat.lt_or_eq_of_le (Nat.le_of_lt_succ less) with earlier | rfl
    · rw [if_neg fun equal =>
        pow_ne_pow earlier (by omega) (Byte.toNat_injective equal).symm]
      exact ih (by omega) earlier
    · rw [if_pos rfl]

theorem length_extend : (extend exp n).length = exp.length := by
  induction n with
  | zero => rfl
  | succ n ih => simpa [extend] using ih

theorem extend_exp (length : exp.length = 512)
    (base : ∀ i < 255, exp.getD i 0 = pow i) (n i : Nat) (bound : n ≤ 257) (less : i < 255 + n) :
    (extend exp n).getD i 0 = pow i := by
  induction n generalizing i with
  | zero => exact base i less
  | succ n ih =>
    rw [extend, ArrayList.getD_set _ _ _ _ _ (by rw [length_extend, length]; omega)]
    split
    · rename_i equal
      rw [ih n (by omega) (by omega), ← equal, pow_period]
    · exact ih i (by omega) (by omega)

theorem tables_exp (bound : i < 512) : tables.exp.getD i 0 = pow i := by
  have read := extend_exp _ (length_fill 255).1 (fun i less => fill_exp 255 i (by decide) less)
    257 i le_rfl bound
  simpa only [tables] using read

theorem tables_log (bound : i < 255) : tables.log.getD (pow i).toNat 0 = i := by
  have read := fill_log 255 i le_rfl bound
  simpa only [tables] using read

theorem exists_pow_eq (nonzero : a ≠ 0) : ∃ i < 255, pow i = a := by
  have injective : Set.InjOn (fun i => (pow i).toNat) (Finset.range 255) := by
    intro i memberI j memberJ equal
    have same := Byte.toNat_injective equal
    rcases Nat.lt_trichotomy i j with less | rfl | greater
    · exact absurd same (pow_ne_pow less (by simpa using memberJ))
    · rfl
    · exact absurd same.symm (pow_ne_pow greater (by simpa using memberI))
  have positive : ∀ b : Byte, b ≠ 0 → b.toNat ∈ Finset.Ico 1 256 := by
    intro b other
    have : b.toNat ≠ 0 := fun zero => other (Byte.toNat_injective zero)
    have := b.toNat_lt
    simp only [Finset.mem_Ico]
    omega
  have image : (Finset.range 255).image (fun i => (pow i).toNat) = Finset.Ico 1 256 := by
    apply Finset.eq_of_subset_of_card_le
    · intro value member
      obtain ⟨i, -, rfl⟩ := Finset.mem_image.mp member
      exact positive _ (pow_ne_zero i)
    · rw [Finset.card_image_of_injOn injective]
      simp
  obtain ⟨i, bound, equal⟩ := Finset.mem_image.mp (image ▸ positive a nonzero)
  exact ⟨i, by simpa using bound, Byte.toNat_injective equal⟩

/-! ### The field -/

theorem mul_zero_right : mul a 0 = 0 := by simp [mul]

theorem mul_zero_left : mul 0 a = 0 := by simp [mul]

theorem mul_comm' (a b : Byte) : mul a b = mul b a := by
  unfold mul
  rw [Nat.add_comm]
  simp only [or_comm]

theorem pow_mod : pow (n % 255) = pow n := by
  induction n using Nat.strong_induction_on with
  | _ n ih =>
    by_cases small : n < 255
    · rw [Nat.mod_eq_of_lt small]
    · obtain ⟨rest, rfl⟩ := Nat.exists_eq_add_of_le (not_lt.mp small)
      rw [pow_period, Nat.add_mod_left, ih rest (by omega)]

theorem mul_pow_left (b : Byte) : mul (pow n) b = double^[n] b := by
  by_cases zero : b = 0
  · rw [zero, mul_zero_right, iterate_double_zero]
  · obtain ⟨j, boundJ, rfl⟩ := exists_pow_eq b zero
    have boundN : n % 255 < 255 := Nat.mod_lt _ (by decide)
    have product : mul (pow (n % 255)) (pow j) = pow (n % 255 + j) := by
      unfold mul
      rw [if_neg (by simp [pow_ne_zero]), tables_log _ boundN, tables_log _ boundJ,
        tables_exp _ (by omega)]
    rw [iterate_pow, ← pow_mod n, product, ← pow_mod (n % 255 + j), Nat.mod_add_mod, pow_mod]

theorem inv_pow (bound : i < 255) : inv (pow i) = pow (255 - i) := by
  unfold inv
  rw [if_neg (pow_ne_zero i), tables_log _ bound, tables_exp _ (by omega)]

theorem mul_assoc' (a b c : Byte) : mul (mul a b) c = mul a (mul b c) := by
  by_cases aZero : a = 0
  · simp [aZero, mul_zero_left]
  by_cases bZero : b = 0
  · simp [bZero, mul_zero_left, mul_zero_right]
  obtain ⟨i, -, rfl⟩ := exists_pow_eq a aZero
  obtain ⟨j, -, rfl⟩ := exists_pow_eq b bZero
  rw [mul_pow_left i (pow j), iterate_pow, mul_pow_left, mul_pow_left, mul_pow_left,
    Function.iterate_add_apply]

theorem mul_add' (a b c : Byte) : mul a (add b c) = add (mul a b) (mul a c) := by
  by_cases aZero : a = 0
  · simp only [aZero, mul_zero_left]
    rfl
  · obtain ⟨i, -, rfl⟩ := exists_pow_eq a aZero
    rw [mul_pow_left, mul_pow_left, mul_pow_left]
    exact iterate_double_xor i b c

theorem mul_inv' (nonzero : a ≠ 0) : mul a (inv a) = 1 := by
  obtain ⟨i, bound, rfl⟩ := exists_pow_eq a nonzero
  rw [inv_pow i bound, mul_pow_left, iterate_pow, show i + (255 - i) = 255 + 0 by omega,
    pow_period]
  rfl

instance : Add Byte := ⟨add⟩

instance : Neg Byte := ⟨id⟩

instance : Mul Byte := ⟨mul⟩

instance : Inv Byte := ⟨inv⟩

instance : Field Byte :=
  Field.ofMinimalAxioms Byte
    (fun _ _ _ => Byte.ext (BitVec.xor_assoc _ _ _))
    (fun _ => Byte.ext BitVec.zero_xor)
    (fun _ => Byte.ext BitVec.xor_self)
    mul_assoc'
    mul_comm'
    (fun a => mul_pow_left 0 a)
    mul_inv'
    rfl
    mul_add'
    ⟨0, 1, by decide⟩

theorem add_eq (a b : Byte) : add a b = a + b := rfl

theorem mul_eq (a b : Byte) : mul a b = a * b := rfl

end Yip.Transport.Gf256
