import Mathlib.Algebra.Order.Field.Power
import Mathlib.Algebra.Order.Ring.Rat
import Mathlib.Tactic.Ring
import SchemaLogic.Json.Basic
import SchemaLogic.Number.Decimal

/-! # The values of numbers

A number of any kind denotes a rational number. Comparing two numbers compares what they denote, and
a number is an integer if it denotes one, whatever their kinds. -/
namespace SchemaLogic

/-! ## Scaled numbers -/

namespace Scaled

def value (s : Scaled) : ℚ := s.coefficient * 2 ^ s.exponent

theorem coefficientAt_mul (s : Scaled) {e : ℤ} (h : e ≤ s.exponent) :
    (s.coefficientAt e : ℚ) * 2 ^ e = s.value := by
  have shift : ((s.exponent - e).toNat : ℤ) = s.exponent - e := Int.toNat_of_nonneg (by omega)
  have power : ((Int.pow 2 (s.exponent - e).toNat : ℤ) : ℚ) = 2 ^ (s.exponent - e) := by
    rw [← shift, zpow_natCast]
    exact Int.cast_pow 2 _
  rw [coefficientAt, Int.cast_mul, power, mul_assoc, ← zpow_add₀ two_ne_zero, sub_add_cancel,
    value]

/-- Over the smaller of two powers of two, the coefficients are in the order of the values. -/
theorem compare_compares (a b : Scaled) : (a.compare b).Compares a.value b.value := by
  let e := min a.exponent b.exponent
  have positive : (0 : ℚ) < 2 ^ e := zpow_pos two_pos e
  have left : (a.coefficientAt e : ℚ) * 2 ^ e = a.value :=
    a.coefficientAt_mul (Int.min_le_left _ _)
  have right : (b.coefficientAt e : ℚ) * 2 ^ e = b.value :=
    b.coefficientAt_mul (Int.min_le_right _ _)
  have order : (a.compare b).Compares (a.coefficientAt e) (b.coefficientAt e) :=
    (compare_iff _ _).mp rfl
  rw [← left, ← right]
  cases h : a.compare b with
  | lt =>
    rw [h] at order
    exact mul_lt_mul_of_pos_right (Int.cast_lt.mpr order) positive
  | eq =>
    rw [h] at order
    exact congrArg (fun c : ℤ => (c : ℚ) * 2 ^ e) order
  | gt =>
    rw [h] at order
    exact mul_lt_mul_of_pos_right (Int.cast_lt.mpr order) positive

end Scaled

def Decimal.value (d : Decimal) : ℚ := d.digits * 10 ^ d.exponent

/-! ## Binary numbers -/

namespace Binary

def value (b : Binary) : ℚ := b.coefficient * 2 ^ b.exponent

theorem dvd_coefficient_iff (b : Binary) (d : ℕ) : (d : ℤ) ∣ b.coefficient ↔ d ∣ b.mantissa := by
  rw [coefficient]
  split
  · rw [Int.dvd_neg, Int.natCast_dvd_natCast]
  · rw [Int.natCast_dvd_natCast]

theorem isIntegral_iff (b : Binary) : b.isIntegral = true ↔ ∃ z : ℤ, b.value = z := by
  rw [isIntegral, beq_iff_eq, ← Nat.dvd_iff_mod_eq_zero, ← b.dvd_coefficient_iff]
  rcases Int.le_total 0 b.exponent with he | he
  · obtain ⟨e, he⟩ := Int.eq_ofNat_of_zero_le he
    have whole : (-b.exponent).toNat = 0 := by omega
    rw [whole]
    refine iff_of_true (Int.one_dvd _) ⟨b.coefficient * 2 ^ e, ?_⟩
    rw [value, he]
    simp
  · obtain ⟨e, he⟩ := Int.eq_ofNat_of_zero_le (Int.neg_nonneg_of_nonpos he)
    have unit : (2 : ℚ) ^ b.exponent * 2 ^ e = 1 := by
      rw [← zpow_natCast, ← he, ← zpow_add₀ two_ne_zero, add_neg_cancel, zpow_zero]
    have power : ((Nat.pow 2 (-b.exponent).toNat : ℕ) : ℤ) = 2 ^ e := by
      rw [he]
      exact Nat.cast_pow 2 e
    rw [power]
    constructor
    · rintro ⟨z, hz⟩
      refine ⟨z, ?_⟩
      calc b.value = (2 ^ b.exponent * 2 ^ e) * z := by rw [value, hz]; push_cast; ring
        _ = z := by rw [unit, one_mul]
    · rintro ⟨z, hz⟩
      refine ⟨z, Int.cast_injective (α := ℚ) ?_⟩
      calc (b.coefficient : ℚ) = b.value * 2 ^ e := by rw [value, mul_assoc, unit, mul_one]
        _ = ((2 ^ e * z : ℤ) : ℚ) := by rw [hz]; push_cast; ring

end Binary

/-! ## Numbers in JSON values -/

theorem Numeric.compare?_of_scaled {a b : Numeric} {u v : Scaled} (ha : a.scaled? = some u)
    (hb : b.scaled? = some v) : a.compare? b = some (u.compare v) := by
  cases a <;> cases ha <;> cases b <;> cases hb <;> rfl

namespace Number

def value : Number → ℚ
  | .natural n => n.val
  | .negative n => Int.negSucc n.val
  | .real b => b.value

theorem scaled?_toNumeric (n : Number) : ∃ s, n.toNumeric.scaled? = some s ∧ s.value = n.value := by
  cases n with
  | real b => exact ⟨_, rfl, rfl⟩
  | _ => exact ⟨_, rfl, by simp [Scaled.value, value]⟩

/-- Numbers are ordered by what they denote. -/
theorem compare?_eq (a b : Number) :
    a.toNumeric.compare? b.toNumeric = some (cmp a.value b.value) := by
  obtain ⟨u, hu, hvalue⟩ := a.scaled?_toNumeric
  obtain ⟨v, hv, hvalue'⟩ := b.scaled?_toNumeric
  rw [Numeric.compare?_of_scaled hu hv, ← hvalue, ← hvalue', (u.compare_compares v).cmp_eq]

theorem equals_iff {a b : Number} : a.equals b = true ↔ a.value = b.value := by
  rw [equals, Numeric.equals, compare?_eq, beq_iff_eq, Option.some_inj, cmp_eq_eq_iff]

theorem isInteger_iff {a : Number} : a.isInteger = true ↔ ∃ z : ℤ, a.value = z := by
  cases a with
  | natural n => exact iff_of_true rfl ⟨n.val, (Int.cast_natCast _).symm⟩
  | negative n => exact iff_of_true rfl ⟨Int.negSucc n.val, rfl⟩
  | real b => exact b.isIntegral_iff

end Number

end SchemaLogic
