import Mathlib.Algebra.Group.Nat.Defs
import Mathlib.Tactic.Common

/-!
# Fixed-width integers and their values

Bridges from `Int32`, `UInt32` and `UInt64` arithmetic to integers: the value of
a conversion or an operation whose result is in range.
-/

namespace SparkleWayland

theorem Int32.toInt_range (a : Int32) : -2147483648 ≤ a.toInt ∧ a.toInt < 2147483648 :=
  ⟨Int32.le_toInt a, Int32.toInt_lt a⟩

/-- Converting a non-negative `int` to `uint32_t` keeps its value. -/
theorem Int32.toNat_toUInt32 {a : Int32} (h : 0 ≤ a.toInt) : a.toUInt32.toNat = a.toInt.toNat :=
  Int32.toNat_toUInt32_of_le (Int32.le_iff_toInt_le.mpr h)

/-- An `int` difference that is in range. -/
theorem Int32.toInt_sub_of_range {a b : Int32} (hl : -2147483648 ≤ a.toInt - b.toInt)
    (hu : a.toInt - b.toInt < 2147483648) : (a - b).toInt = a.toInt - b.toInt := by
  rw [Int32.toInt_sub]
  exact Int.bmod_eq_of_le (by omega) (by omega)

/-- An `int` product that is in range. -/
theorem Int32.toInt_mul_of_range {a b : Int32} (hl : -2147483648 ≤ a.toInt * b.toInt)
    (hu : a.toInt * b.toInt < 2147483648) : (a * b).toInt = a.toInt * b.toInt := by
  rw [Int32.toInt_mul]
  exact Int.bmod_eq_of_le (by omega) (by omega)

/-- An `int` quotient that is in range. -/
theorem Int32.toInt_div_of_range {a b : Int32} (hl : -2147483648 ≤ a.toInt.tdiv b.toInt)
    (hu : a.toInt.tdiv b.toInt < 2147483648) : (a / b).toInt = a.toInt.tdiv b.toInt := by
  rw [Int32.toInt_div]
  exact Int.bmod_eq_of_le (by omega) (by omega)

/-- Converting a negative `int` to `uint32_t` adds `2 ^ 32`. -/
theorem Int32.toNat_toUInt32_of_neg {a : Int32} (h : a.toInt < 0) :
    (a.toUInt32.toNat : Int) = a.toInt + 4294967296 := by
  have hvalue : a.toInt = a.toBitVec.toInt := rfl
  have hbits : a.toUInt32.toNat = a.toBitVec.toNat := rfl
  rw [hvalue, BitVec.toInt_eq_toNat_cond] at h ⊢
  split at h
  · omega
  · rw [if_neg ‹_›, hbits]
    omega

/-- A `uint32_t` product that is in range. -/
theorem UInt32.toNat_mul_of_lt {a b : UInt32} (h : a.toNat * b.toNat < 2 ^ 32) :
    (a * b).toNat = a.toNat * b.toNat := by
  rw [UInt32.toNat_mul, Nat.mod_eq_of_lt h]

/-- A `uint32_t` sum that is in range. -/
theorem UInt32.toNat_add_of_lt {a b : UInt32} (h : a.toNat + b.toNat < 2 ^ 32) :
    (a + b).toNat = a.toNat + b.toNat := by
  rw [UInt32.toNat_add, Nat.mod_eq_of_lt h]

/-- A `uint32_t` product never exceeds the mathematical one. -/
theorem UInt32.toNat_mul_le (a b : UInt32) : (a * b).toNat ≤ a.toNat * b.toNat := by
  rw [UInt32.toNat_mul]
  exact Nat.mod_le _ _

/-! ## Conversions between `int` and `uint64_t` -/

/-- `uint64_t` to `int`: the low half, read as a signed number. -/
def UInt64.asInt (v : UInt64) : Int32 := v.toUInt32.toInt32

/-- `int` to `uint64_t`: the sign is extended. -/
def Int32.asUInt64 (n : Int32) : UInt64 := n.toInt64.toUInt64

/-- Converting `uint64_t` to `int` keeps the value modulo `2 ^ 32`. -/
theorem UInt64.toInt_asInt_eq_bmod (v : UInt64) :
    (UInt64.asInt v).toInt = Int.bmod v.toNat (2 ^ 32) := by
  have hbits : (UInt64.asInt v).toInt = (v.toUInt32.toBitVec).toInt := rfl
  have hlow : v.toUInt32.toBitVec.toNat = v.toNat % 2 ^ 32 := UInt64.toNat_toUInt32 v
  rw [hbits, BitVec.toInt_eq_toNat_bmod, hlow]
  exact Int.emod_bmod (v.toNat : Int) (2 ^ 32)

theorem UInt64.toInt_asInt {v : UInt64} (h : v.toNat < 2 ^ 31) :
    (UInt64.asInt v).toInt = v.toNat := by
  have hlow : v.toUInt32.toNat = v.toNat := by
    rw [UInt64.toNat_toUInt32, Nat.mod_eq_of_lt (by omega)]
  have hval : v.toUInt32.toBitVec.toInt = v.toUInt32.toBitVec.toNat :=
    BitVec.toInt_eq_toNat_of_lt (show 2 * v.toUInt32.toNat < 2 ^ 32 by omega)
  change v.toUInt32.toBitVec.toInt = _
  rw [hval]
  exact congrArg Int.ofNat hlow

theorem Int32.toNat_asUInt64 {n : Int32} (h : 0 ≤ n.toInt) :
    (Int32.asUInt64 n).toNat = n.toInt.toNat := by
  have hle : 0 ≤ n.toInt64 := by
    rw [Int64.le_iff_toInt_le, Int32.toInt_toInt64]
    exact h
  rw [asUInt64, Int64.toNat_toUInt64_of_le hle, ← Int64.toNat_toInt, Int32.toInt_toInt64]

/-- Converting a negative `int` to `uint64_t` adds `2 ^ 64`. -/
theorem Int32.toNat_asUInt64_of_neg {n : Int32} (h : n.toInt < 0) :
    ((Int32.asUInt64 n).toNat : Int) = n.toInt + 18446744073709551616 := by
  have hwide : n.toInt64.toBitVec.toInt = n.toInt := Int32.toInt_toInt64 n
  have hbits : (Int32.asUInt64 n).toNat = n.toInt64.toBitVec.toNat := rfl
  rw [hbits, ← hwide]
  rw [← hwide, BitVec.toInt_eq_toNat_cond] at h
  rw [BitVec.toInt_eq_toNat_cond]
  split at h
  · omega
  · rw [if_neg ‹_›]
    omega

/-- An integer that is in range is a `uint64_t`. -/
theorem UInt64.toNat_ofInt_of_range {n : Int} (hl : 0 ≤ n) (hu : n < 18446744073709551616) :
    ((UInt64.ofInt n).toNat : Int) = n := by
  have hlt : n.toNat < 2 ^ 64 := by omega
  show ((UInt64.ofNat (n % 18446744073709551616).toNat).toNat : Int) = n
  rw [Int.emod_eq_of_lt hl hu, UInt64.toNat_ofNat_of_lt' hlt, Int.toNat_of_nonneg hl]

end SparkleWayland
