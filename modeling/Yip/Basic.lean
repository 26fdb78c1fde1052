/-
This file is the vocabulary the modules of the development share: the byte, with the bit
operations the program performs on it, and the big-endian encoding of machine integers.
-/

import Mathlib.Data.List.Basic
import Mathlib.Tactic

namespace Yip

open List

@[ext]
structure Byte where
  bits : BitVec 8
  deriving DecidableEq, Repr

namespace Byte

def ofNat (value : Nat) : Byte := ⟨BitVec.ofNat 8 value⟩

def toNat (byte : Byte) : Nat := byte.bits.toNat

def xor (first second : Byte) : Byte := ⟨first.bits ^^^ second.bits⟩

instance : Zero Byte := ⟨ofNat 0⟩

instance : One Byte := ⟨ofNat 1⟩

instance : Inhabited Byte := ⟨0⟩

@[simp]
theorem bits_xor (first second : Byte) : (first.xor second).bits = first.bits ^^^ second.bits := rfl

theorem toNat_lt (byte : Byte) : byte.toNat < 256 := byte.bits.isLt

theorem toNat_ofNat (value : Nat) : (ofNat value).toNat = value % 256 := BitVec.toNat_ofNat value 8

theorem toNat_injective {first second : Byte} (equal : first.toNat = second.toNat) :
    first = second := Byte.ext (BitVec.eq_of_toNat_eq equal)

theorem ofNat_toNat (byte : Byte) : ofNat byte.toNat = byte :=
  toNat_injective (by rw [toNat_ofNat, Nat.mod_eq_of_lt byte.toNat_lt])

end Byte

/-! ### Big-endian integers -/

def toBeBytes : Nat → Nat → List Byte
  | 0, _ => []
  | width + 1, value => Byte.ofNat (value / 256 ^ width) :: toBeBytes width value

def ofBeBytes (bytes : List Byte) : Nat :=
  bytes.foldl (fun acc byte => acc * 256 + byte.toNat) 0

@[simp]
theorem length_toBeBytes (width value : Nat) : (toBeBytes width value).length = width := by
  induction width with
  | zero => rfl
  | succ width ih => rw [toBeBytes, length_cons, ih]

theorem ofBeBytes_toBeBytes (width value : Nat) :
    ofBeBytes (toBeBytes width value) = value % 256 ^ width := by
  have general : ∀ width acc, (toBeBytes width value).foldl
      (fun acc byte => acc * 256 + byte.toNat) acc = acc * 256 ^ width + value % 256 ^ width := by
    intro width
    induction width with
    | zero =>
      intro acc
      simp [toBeBytes, Nat.mod_one]
    | succ width ih =>
      intro acc
      rw [toBeBytes, foldl_cons, ih, Byte.toNat_ofNat, pow_succ,
        Nat.mod_mul]
      ring
  rw [ofBeBytes, general, Nat.zero_mul, Nat.zero_add]

theorem ofBeBytes_cons (byte : Byte) (rest : List Byte) :
    ofBeBytes (byte :: rest) = byte.toNat * 256 ^ rest.length + ofBeBytes rest := by
  have general : ∀ (bytes : List Byte) acc, bytes.foldl
      (fun acc byte => acc * 256 + byte.toNat) acc
        = acc * 256 ^ bytes.length + ofBeBytes bytes := by
    intro bytes
    induction bytes with
    | nil => simp [ofBeBytes]
    | cons byte rest ih =>
      intro acc
      rw [ofBeBytes, foldl_cons, foldl_cons, ih,
        ih (0 * 256 + byte.toNat), length_cons, pow_succ]
      ring
  rw [ofBeBytes, foldl_cons, general, Nat.zero_mul, Nat.zero_add]

theorem ofBeBytes_lt (bytes : List Byte) : ofBeBytes bytes < 256 ^ bytes.length := by
  induction bytes with
  | nil => exact Nat.one_pos
  | cons byte rest ih =>
    have digit := byte.toNat_lt
    rw [ofBeBytes_cons, length_cons, pow_succ]
    nlinarith

theorem toBeBytes_mul_add (width high low : Nat) :
    toBeBytes width (high * 256 ^ width + low) = toBeBytes width low := by
  induction width generalizing high with
  | zero => rfl
  | succ width ih =>
    have split : high * 256 ^ (width + 1) + low = high * 256 * 256 ^ width + low := by
      rw [pow_succ]
      ring
    have digit : (high * 256 * 256 ^ width + low) / 256 ^ width =
        high * 256 + low / 256 ^ width := by
      rw [Nat.add_comm, Nat.add_mul_div_right _ _ (by positivity), Nat.add_comm]
    rw [toBeBytes, toBeBytes, split, ih, digit]
    congr 1
    apply Byte.toNat_injective
    rw [Byte.toNat_ofNat, Byte.toNat_ofNat, Nat.add_comm, Nat.add_mul_mod_self_right]

theorem toBeBytes_ofBeBytes (bytes : List Byte) :
    toBeBytes bytes.length (ofBeBytes bytes) = bytes := by
  induction bytes with
  | nil => rfl
  | cons byte rest ih =>
    have digit : (byte.toNat * 256 ^ rest.length + ofBeBytes rest) / 256 ^ rest.length =
        byte.toNat := by
      rw [Nat.add_comm, Nat.add_mul_div_right _ _ (by positivity),
        Nat.div_eq_of_lt (ofBeBytes_lt rest), Nat.zero_add]
    rw [length_cons, toBeBytes, ofBeBytes_cons, digit, toBeBytes_mul_add, ih,
      Byte.ofNat_toNat]

end Yip
