import Mathlib.Tactic.Linarith
import SchemaLogic.Proofs.NumberValue

/-! # Rounding integers to binary64

The binary64 number nearest to an integer of 64 bits is less than twice as great, and it is the
integer itself wherever some binary64 number is. -/
namespace SchemaLogic.Binary

theorem value_eq (b : Binary) :
    b.value = (if b.negative then -1 else 1) * (b.mantissa * 2 ^ b.exponent) := by
  rw [value, coefficient]
  split <;> push_cast <;> ring

theorem abs_value (b : Binary) : |b.value| = b.mantissa * 2 ^ b.exponent := by
  have positive : (0 : ℚ) ≤ b.mantissa * 2 ^ b.exponent :=
    mul_nonneg (Nat.cast_nonneg _) (zpow_nonneg two_pos.le _)
  rw [value_eq, abs_mul, abs_of_nonneg positive]
  split <;> simp

/-! ## Quotients in units of a power of two -/

/-- A rounded quotient is off by at most a half. -/
theorem roundDiv_bounds (num : Nat) {den : Nat} (h : 0 < den) :
    2 * num ≤ 2 * (roundDiv num den * den) + den ∧
      2 * (roundDiv num den * den) ≤ 2 * num + den := by
  have division := Nat.div_add_mod' num den
  have remainder := Nat.mod_lt num h
  rw [roundDiv]
  split
  · rw [Nat.add_mul]
    omega
  · omega

theorem roundDiv_mul (quotient : Nat) {den : Nat} (h : 0 < den) :
    roundDiv (quotient * den) den = quotient := by
  rw [roundDiv, Nat.mul_mod_left, Nat.mul_div_cancel quotient h, if_neg (by omega)]

theorem inUnits_value (num den : Nat) (e : ℤ) :
    ((inUnits num den e).1 : ℚ) * 2 ^ e * den = num * (inUnits num den e).2 := by
  have power (k : ℕ) : ((Nat.pow 2 k : ℕ) : ℚ) = 2 ^ (k : ℤ) := by
    rw [zpow_natCast]
    exact Nat.cast_pow 2 k
  have shift : ((-e).toNat : ℤ) + e = e.toNat := by omega
  rw [inUnits, Nat.cast_mul, Nat.cast_mul, power, power]
  calc (num : ℚ) * 2 ^ ((-e).toNat : ℤ) * 2 ^ e * den
      = num * den * (2 ^ ((-e).toNat : ℤ) * 2 ^ e) := by ring
    _ = num * (den * 2 ^ (e.toNat : ℤ)) := by rw [← zpow_add₀ two_ne_zero, shift, mul_assoc]

/-! ## Natural numbers -/

def lastBit (n : Nat) : ℤ := (n.log2 : ℤ) - 52

def keptBits (n : Nat) : Nat :=
  roundDiv (inUnits n 1 (lastBit n)).1 (inUnits n 1 (lastBit n)).2

/-- A natural number rounded to 53 bits. -/
def nearest (n : Nat) : ℚ := keptBits n * 2 ^ lastBit n

section Natural

variable {n : Nat} (hn : 0 < n)
include hn

theorem inUnits_bounds :
    0 < (inUnits n 1 (lastBit n)).2 ∧
      2 ^ 52 * (inUnits n 1 (lastBit n)).2 ≤ (inUnits n 1 (lastBit n)).1 ∧
      (inUnits n 1 (lastBit n)).1 < 2 ^ 53 * (inUnits n 1 (lastBit n)).2 := by
  have low : 2 ^ n.log2 ≤ n := Nat.log2_self_le hn.ne'
  have high : n < 2 ^ (n.log2 + 1) := Nat.lt_log2_self
  have shift : 52 + (lastBit n).toNat = n.log2 + (-lastBit n).toNat := by
    rw [lastBit]
    omega
  have shift' : 53 + (lastBit n).toNat = n.log2 + 1 + (-lastBit n).toNat := by omega
  rw [inUnits, one_mul]
  change 0 < 2 ^ _ ∧ 2 ^ 52 * 2 ^ _ ≤ n * 2 ^ _ ∧ n * 2 ^ _ < 2 ^ 53 * 2 ^ _
  refine ⟨Nat.two_pow_pos _, ?_, ?_⟩
  · rw [← Nat.pow_add, shift, Nat.pow_add]
    exact Nat.mul_le_mul_right _ low
  · rw [← Nat.pow_add, shift', Nat.pow_add]
    exact Nat.mul_lt_mul_of_pos_right high (Nat.two_pow_pos _)

theorem unitExponent_natural : unitExponent n 1 = lastBit n := by
  obtain ⟨positive, low, -⟩ := inUnits_bounds hn
  have wide : ¬(inUnits n 1 (lastBit n)).1 / (inUnits n 1 (lastBit n)).2 < Nat.pow 2 52 :=
    Nat.not_lt.mpr ((Nat.le_div_iff_mul_le positive).mpr low)
  have guess : Int.ofNat n.log2 - Int.ofNat (Nat.log2 1) - 52 = lastBit n := by
    have one : Nat.log2 1 = 0 := by decide
    rw [one, lastBit]
    rfl
  simp only [unitExponent, guess, if_neg wide]
  rw [lastBit]
  omega

theorem keptBits_bounds : 2 ^ 52 ≤ keptBits n ∧ keptBits n ≤ 2 ^ 53 := by
  obtain ⟨positive, low, high⟩ := inUnits_bounds hn
  obtain ⟨below, above⟩ := roundDiv_bounds (inUnits n 1 (lastBit n)).1 positive
  rw [← keptBits] at below above
  constructor
  · by_contra h
    have := Nat.mul_le_mul_right (inUnits n 1 (lastBit n)).2 (Nat.lt_of_not_le h)
    rw [Nat.succ_mul] at this
    omega
  · by_contra h
    have := Nat.mul_le_mul_right (inUnits n 1 (lastBit n)).2 (Nat.lt_of_not_le h)
    rw [Nat.succ_mul] at this
    omega

theorem ofRatio?_natural (negative : Bool) (h : n < 2 ^ 64) :
    ∃ b, ofRatio? negative n 1 = some b ∧ b.value = (if negative then -1 else 1) * nearest n := by
  obtain ⟨low, high⟩ := keptBits_bounds hn
  have bits : n.log2 < 64 := (Nat.log2_lt hn.ne').mpr h
  have unfolded : ofRatio? negative n 1 =
      if keptBits n = Nat.pow 2 53 then ofParts? negative (Nat.pow 2 52) (lastBit n + 1)
      else ofParts? negative (keptBits n) (lastBit n) := by
    simp only [ofRatio?, if_neg hn.ne', unitExponent_natural hn]
    rfl
  rw [unfolded, nearest]
  by_cases carry : keptBits n = Nat.pow 2 53
  · have canonical : Canonical (Nat.pow 2 52) (lastBit n + 1) := by
      refine ⟨by decide, ?_, ?_, .inl (Nat.le_refl _)⟩ <;> rw [lastBit] <;> omega
    refine ⟨_, (if_pos carry).trans (dif_pos canonical), ?_⟩
    have double : ((Nat.pow 2 53 : ℕ) : ℚ) = (Nat.pow 2 52 : ℕ) * 2 := by norm_num
    rw [value_eq, carry, double, zpow_add₀ two_ne_zero, zpow_one]
    ring
  · have canonical : Canonical (keptBits n) (lastBit n) := by
      refine ⟨Nat.lt_of_le_of_ne high carry, ?_, ?_, .inl low⟩ <;> rw [lastBit] <;> omega
    refine ⟨_, (if_neg carry).trans (dif_pos canonical), ?_⟩
    rw [value_eq]

theorem two_zpow_lastBit_le : 2 ^ 52 * 2 ^ lastBit n ≤ (n : ℚ) := by
  obtain ⟨positive, low, -⟩ := inUnits_bounds hn
  have value := inUnits_value n 1 (lastBit n)
  rw [Nat.cast_one, mul_one] at value
  have low : (2 ^ 52 * (inUnits n 1 (lastBit n)).2 : ℚ) ≤ (inUnits n 1 (lastBit n)).1 := by
    exact_mod_cast low
  refine le_of_mul_le_mul_right ?_ (Nat.cast_pos.mpr positive)
  calc (2 ^ 52 * 2 ^ lastBit n * (inUnits n 1 (lastBit n)).2 : ℚ)
      = 2 ^ 52 * (inUnits n 1 (lastBit n)).2 * 2 ^ lastBit n := by ring
    _ ≤ (inUnits n 1 (lastBit n)).1 * 2 ^ lastBit n :=
        mul_le_mul_of_nonneg_right low (zpow_nonneg two_pos.le _)
    _ = n * (inUnits n 1 (lastBit n)).2 := value

theorem nearest_le_add : 2 * nearest n ≤ 2 * n + 2 ^ lastBit n := by
  obtain ⟨positive, -, -⟩ := inUnits_bounds hn
  obtain ⟨-, above⟩ := roundDiv_bounds (inUnits n 1 (lastBit n)).1 positive
  rw [← keptBits] at above
  have value := inUnits_value n 1 (lastBit n)
  rw [Nat.cast_one, mul_one] at value
  have above : (2 * (keptBits n * (inUnits n 1 (lastBit n)).2) : ℚ) ≤
      2 * (inUnits n 1 (lastBit n)).1 + (inUnits n 1 (lastBit n)).2 := by exact_mod_cast above
  refine le_of_mul_le_mul_right ?_ (Nat.cast_pos.mpr positive)
  calc (2 * nearest n * (inUnits n 1 (lastBit n)).2 : ℚ)
      = 2 * (keptBits n * (inUnits n 1 (lastBit n)).2) * 2 ^ lastBit n := by rw [nearest]; ring
    _ ≤ (2 * (inUnits n 1 (lastBit n)).1 + (inUnits n 1 (lastBit n)).2) * 2 ^ lastBit n :=
        mul_le_mul_of_nonneg_right above (zpow_nonneg two_pos.le _)
    _ = 2 * ((inUnits n 1 (lastBit n)).1 * 2 ^ lastBit n) +
        2 ^ lastBit n * (inUnits n 1 (lastBit n)).2 := by ring
    _ = (2 * n + 2 ^ lastBit n) * (inUnits n 1 (lastBit n)).2 := by rw [value]; ring

theorem nearest_lt : nearest n < 2 * n := by
  have low := two_zpow_lastBit_le hn
  have high := nearest_le_add hn
  have unit : (0 : ℚ) < 2 ^ lastBit n := zpow_pos two_pos _
  linarith

theorem nearest_pos : 0 < nearest n := by
  have bits : 0 < keptBits n := Nat.lt_of_lt_of_le (by decide) (keptBits_bounds hn).1
  exact mul_pos (Nat.cast_pos.mpr bits) (zpow_pos two_pos _)

/-- A number whose bits are all kept is its own nearest one. -/
theorem nearest_of_dvd (h : 2 ^ (lastBit n).toNat ∣ n) : nearest n = n := by
  obtain ⟨positive, -, -⟩ := inUnits_bounds hn
  have whole : (inUnits n 1 (lastBit n)).2 ∣ (inUnits n 1 (lastBit n)).1 := by
    rw [inUnits, one_mul]
    exact Dvd.dvd.mul_right h _
  obtain ⟨quotient, hquotient⟩ := exists_eq_mul_left_of_dvd whole
  have kept : keptBits n = quotient := by
    rw [keptBits, hquotient]
    exact roundDiv_mul quotient positive
  have value := inUnits_value n 1 (lastBit n)
  rw [Nat.cast_one, mul_one, hquotient, Nat.cast_mul] at value
  refine mul_right_cancel₀ (Nat.cast_ne_zero.mpr positive.ne') (Eq.trans ?_ value)
  rw [nearest, kept]
  ring

theorem nearest_small (h : n < 2 ^ 53) : nearest n = n := by
  have bits : n.log2 < 53 := (Nat.log2_lt hn.ne').mpr h
  have none : (lastBit n).toNat = 0 := by
    rw [lastBit]
    omega
  refine nearest_of_dvd hn ?_
  rw [none]
  exact one_dvd n

/-- Rounding keeps what a binary64 number denotes. -/
theorem nearest_of_value {b : Binary} (h : |b.value| = n) : nearest n = n := by
  rw [abs_value] at h
  have mantissa : (b.mantissa : ℚ) < 2 ^ 53 := by exact_mod_cast b.canonical.1
  have powers : (2 : ℚ) ^ (52 + lastBit n) < 2 ^ (53 + b.exponent) := by
    rw [zpow_add₀ two_ne_zero, zpow_add₀ two_ne_zero]
    calc (2 : ℚ) ^ (52 : ℤ) * 2 ^ lastBit n ≤ n := two_zpow_lastBit_le hn
      _ = b.mantissa * 2 ^ b.exponent := h.symm
      _ < 2 ^ (53 : ℤ) * 2 ^ b.exponent :=
        mul_lt_mul_of_pos_right mantissa (zpow_pos two_pos _)
  have order : 52 + lastBit n < 53 + b.exponent := (zpow_lt_zpow_iff_right₀ one_lt_two).mp powers
  refine nearest_of_dvd hn ?_
  by_cases whole : lastBit n ≤ 0
  · rw [Int.toNat_of_nonpos whole]
    exact one_dvd n
  · refine ⟨b.mantissa * 2 ^ (b.exponent - lastBit n).toNat, Nat.cast_injective (R := ℚ) ?_⟩
    have power : (2 : ℚ) ^ b.exponent =
        2 ^ (lastBit n).toNat * 2 ^ (b.exponent - lastBit n).toNat := by
      rw [← zpow_natCast, ← zpow_natCast, ← zpow_add₀ two_ne_zero]
      congr 1
      omega
    rw [← h, power]
    push_cast
    ring

theorem nearest_natural : ∃ k : ℕ, nearest n = k ∧ (2 ^ 53 ≤ n → 2 ^ 53 ≤ k) := by
  by_cases h : n < 2 ^ 53
  · exact ⟨n, nearest_small hn h, id⟩
  · have bits : 53 ≤ n.log2 := (Nat.le_log2 hn.ne').mpr (Nat.le_of_not_lt h)
    have shift : ((lastBit n).toNat : ℤ) = lastBit n := by
      rw [lastBit]
      omega
    have low : 2 ≤ 2 ^ (lastBit n).toNat := by
      refine Nat.le_self_pow ?_ 2
      rw [lastBit]
      omega
    refine ⟨keptBits n * 2 ^ (lastBit n).toNat, ?_, fun _ => ?_⟩
    · rw [nearest, ← shift, zpow_natCast]
      push_cast
      rfl
    · calc 2 ^ 53 = 2 ^ 52 * 2 := by norm_num
        _ ≤ keptBits n * 2 ^ (lastBit n).toNat := Nat.mul_le_mul (keptBits_bounds hn).1 low

theorem nearest_le (h : n < 2 ^ 64) : nearest n ≤ 2 ^ 64 := by
  have bits : n.log2 < 64 := (Nat.log2_lt hn.ne').mpr h
  have kept : (keptBits n : ℚ) ≤ 2 ^ 53 := by exact_mod_cast (keptBits_bounds hn).2
  have unit : (2 : ℚ) ^ lastBit n ≤ 2 ^ (11 : ℤ) := by
    refine zpow_le_zpow_right₀ one_le_two ?_
    rw [lastBit]
    omega
  calc nearest n ≤ 2 ^ 53 * 2 ^ (11 : ℤ) :=
        mul_le_mul kept unit (zpow_nonneg two_pos.le _) (by norm_num)
    _ = 2 ^ 64 := by norm_num

end Natural

end SchemaLogic.Binary

namespace SchemaLogic.Number

open Binary

/-! ## Numbers in JSON values -/

theorem binary?_natural {k : Fin (Nat.pow 2 64)} (h : 0 < k.val) :
    ∃ b, (natural k).toNumeric.binary? = some b ∧ b.value = nearest k.val := by
  obtain ⟨b, hb, hvalue⟩ := ofRatio?_natural h false k.isLt
  refine ⟨b, hb, ?_⟩
  rw [hvalue, if_neg Bool.false_ne_true, one_mul]

theorem binary?_negative (k : Fin (Nat.pow 2 63)) :
    ∃ b, (negative k).toNumeric.binary? = some b ∧ b.value = -nearest (k.val + 1) := by
  have small : k.val + 1 < 2 ^ 64 := Nat.lt_of_le_of_lt k.isLt (by decide)
  obtain ⟨b, hb, hvalue⟩ := ofRatio?_natural k.val.succ_pos true small
  have below : decide (Int.negSucc k.val < 0) = true := decide_eq_true (Int.negSucc_lt_zero _)
  have read : (negative k).toNumeric.binary? = ofRatio? true (k.val + 1) 1 := by
    change ofRatio? (decide (Int.negSucc k.val < 0)) (k.val + 1) 1 = _
    rw [below]
  refine ⟨b, read.trans hb, ?_⟩
  rw [hvalue, if_pos rfl, neg_one_mul]

/-- Every number has a nearest binary64 number, which denotes the same if any does. -/
theorem binary?_exact (m : Number) :
    ∃ b, m.toNumeric.binary? = some b ∧ ∀ c : Binary, c.value = m.value → b.value = m.value := by
  cases m with
  | natural k =>
    by_cases h : 0 < k.val
    · obtain ⟨b, hb, hvalue⟩ := binary?_natural h
      refine ⟨b, hb, fun c hc => ?_⟩
      have magnitude : |c.value| = k.val := by rw [hc, value, Nat.abs_cast]
      rw [hvalue, nearest_of_value h magnitude, value]
    · have zero : k = 0 := Fin.ext (Nat.eq_zero_of_not_pos h)
      subst zero
      refine ⟨Binary.zero false, rfl, fun _ _ => ?_⟩
      simp [Binary.value, Binary.zero, coefficient, value]
  | negative k =>
    obtain ⟨b, hb, hvalue⟩ := binary?_negative k
    refine ⟨b, hb, fun c hc => ?_⟩
    have magnitude : |c.value| = (k.val + 1 : ℕ) := by
      rw [hc, value, Int.cast_negSucc, abs_neg, Nat.abs_cast]
    rw [hvalue, nearest_of_value k.val.succ_pos magnitude, value, Int.cast_negSucc]
  | real b => exact ⟨b, rfl, fun _ _ => rfl⟩

end SchemaLogic.Number
