import Mathlib.Algebra.Ring.Nat
import Mathlib.Data.Nat.Basic

/-! # Little-endian bytes -/

namespace LittleEndian

/-- The lowest bytes of a value, the lowest first. -/
def toBytes : Nat → Nat → List UInt8
  | 0, _ => []
  | size + 1, value => UInt8.ofNat value :: toBytes size (value / 256)

/-- The value of bytes. -/
def ofBytes : List UInt8 → Nat
  | [] => 0
  | byte :: rest => byte.toNat + 256 * ofBytes rest

variable {size value other : Nat}

@[simp] theorem length_toBytes : (toBytes size value).length = size := by
  induction size generalizing value with
  | zero => rfl
  | succ size ih => simp [toBytes, ih]

theorem ofBytes_toBytes : ofBytes (toBytes size value) = value % 256 ^ size := by
  induction size generalizing value with
  | zero => simp [toBytes, ofBytes, Nat.mod_one]
  | succ size ih =>
      rw [toBytes, ofBytes, ih, Nat.pow_succ, Nat.mul_comm (256 ^ size), Nat.mod_mul]
      rfl

theorem toBytes_ofBytes (bytes : List UInt8) : toBytes bytes.length (ofBytes bytes) = bytes := by
  induction bytes with
  | nil => rfl
  | cons byte rest ih =>
      have low : UInt8.ofNat (byte.toNat + 256 * ofBytes rest) = byte := by
        apply UInt8.toNat_inj.mp
        rw [UInt8.toNat_ofNat']
        have bound := byte.toNat_lt
        omega
      have high : (byte.toNat + 256 * ofBytes rest) / 256 = ofBytes rest := by
        have bound := byte.toNat_lt
        omega
      rw [List.length_cons, ofBytes, toBytes, low, high, ih]

theorem ofBytes_lt (bytes : List UInt8) : ofBytes bytes < 256 ^ bytes.length := by
  induction bytes with
  | nil => exact Nat.one_pos
  | cons byte rest ih =>
      have bound := byte.toNat_lt
      rw [ofBytes, List.length_cons, Nat.pow_succ]
      omega

theorem toBytes_mod : toBytes size (value % 256 ^ size) = toBytes size value := by
  have read := toBytes_ofBytes (toBytes size value)
  rwa [length_toBytes, ofBytes_toBytes] at read

/-- Different values below the limit have different bytes. -/
theorem toBytes_inj (bound : value < 256 ^ size) (bound' : other < 256 ^ size) :
    toBytes size value = toBytes size other ↔ value = other := by
  constructor
  · intro same
    have read := congrArg ofBytes same
    rwa [ofBytes_toBytes, ofBytes_toBytes, Nat.mod_eq_of_lt bound, Nat.mod_eq_of_lt bound'] at read
  · rintro rfl
    rfl

end LittleEndian
