import SchemaLogic.Proofs.Divisibility
import SchemaLogic.Proofs.Rounding

/-! # Equal numbers divided through binary64

Numbers of one value can be of two kinds: integers are divided exactly, but through binary64 as soon
as one number of the pair is real. A divisor that rounding keeps divides equal numbers alike, and so
does one that is rounded beyond all integers; any other one tells its rounded value as an integer
from the same as a real number. -/
namespace SchemaLogic

def Multiple (a b : ℚ) : Prop := b ≠ 0 ∧ ∃ k : ℤ, a = k * b

theorem multiple_zero {b : ℚ} (h : b ≠ 0) : Multiple 0 b := ⟨h, 0, by simp⟩

theorem multiple_self {b : ℚ} (h : b ≠ 0) : Multiple b b := ⟨h, 1, by simp⟩

theorem multiple_int {i j : ℤ} : Multiple i j ↔ j ≠ 0 ∧ j ∣ i := by
  rw [Multiple, Int.cast_ne_zero]
  refine and_congr_right fun _ => exists_congr fun k => ?_
  rw [mul_comm j]
  exact_mod_cast Iff.rfl

theorem Multiple.dvd_natAbs {i : ℤ} {k : ℕ} (h : Multiple i k) : k ∣ i.natAbs :=
  Int.natCast_dvd.mp (multiple_int.mp (by exact_mod_cast h)).2

theorem Multiple.eq_zero {i : ℤ} {k : ℕ} (h : Multiple i k) (hlt : i.natAbs < k) : i = 0 :=
  Int.natAbs_eq_zero.mp (Nat.eq_zero_of_dvd_of_lt h.dvd_natAbs hlt)

theorem Multiple.natAbs_eq {i : ℤ} {k : ℕ} (h : Multiple i k) (hi : i ≠ 0)
    (hlt : i.natAbs < 2 * k) : i.natAbs = k :=
  Nat.eq_of_dvd_of_lt_two_mul (Int.natAbs_ne_zero.mpr hi) h.dvd_natAbs hlt

theorem Multiple.le {a b : ℚ} (h : Multiple a b) (ha : 0 < a) (hb : 0 ≤ b) : b ≤ a := by
  obtain ⟨-, k, rfl⟩ := h
  have positive : (0 : ℚ) < k := pos_of_mul_pos_left ha hb
  have least : (1 : ℚ) ≤ k := by exact_mod_cast (Int.cast_pos.mp positive : 0 < k)
  exact le_mul_of_one_le_left hb least

/-! ## Kinds of equal numbers -/

namespace Number

variable {d m n : Number} {b c : Binary} {i j : ℤ}

theorem value_of_integer? (h : m.toNumeric.integer? = some i) :
    m.value = i ∧ i.natAbs < 2 ^ 64 := by
  cases m with
  | natural k =>
    cases h
    exact ⟨(Int.cast_natCast _).symm, k.isLt⟩
  | negative k =>
    cases h
    exact ⟨rfl, Nat.lt_of_le_of_lt (Nat.succ_le_of_lt k.isLt) (by decide)⟩
  | real b => cases h

theorem eq_of_integer? (hm : m.toNumeric.integer? = some i) (hn : n.toNumeric.integer? = some j)
    (h : m.value = n.value) : m = n := by
  rw [(value_of_integer? hm).1, (value_of_integer? hn).1, Int.cast_inj] at h
  subst h
  cases m with
  | natural k =>
    cases hm
    cases n with
    | natural l =>
      have same : (l.val : ℤ) = k.val := Option.some.inj hn
      rw [Fin.ext (Int.natCast_inj.mp same)]
    | negative l => cases hn
    | real c => cases hn
  | negative k =>
    cases hm
    cases n with
    | natural l => cases hn
    | negative l =>
      have same : Int.negSucc l.val = Int.negSucc k.val := Option.some.inj hn
      rw [Fin.ext (Int.negSucc.inj same)]
    | real c => cases hn
  | real b => cases hm

/-- What holds of equal real numbers, and of an integer and an equal real number, holds of equal
numbers. -/
theorem of_equal {P : Number → Number → Prop} (symm : ∀ m n, P m n → P n m) (refl : ∀ m, P m m)
    (reals : ∀ b c : Binary, b.value = c.value → P (.real b) (.real c))
    (mixed : ∀ (m : Number) (i : ℤ) (b : Binary), m.toNumeric.integer? = some i → b.value = i →
      P m (.real b))
    (h : m.value = n.value) : P m n := by
  have integer (k : Number) : (∃ b, k = .real b) ∨ ∃ i, k.toNumeric.integer? = some i := by
    cases k with
    | natural k => exact .inr ⟨_, rfl⟩
    | negative k => exact .inr ⟨_, rfl⟩
    | real b => exact .inl ⟨b, rfl⟩
  rcases integer m with ⟨b, rfl⟩ | ⟨i, hm⟩ <;> rcases integer n with ⟨c, rfl⟩ | ⟨j, hn⟩
  · exact reals b c h
  · exact symm _ _ (mixed n j b hn (h.trans (value_of_integer? hn).1))
  · exact mixed m i c hm (h.symm.trans (value_of_integer? hm).1)
  · exact eq_of_integer? hm hn h ▸ refl m

end Number

/-! ## Division through binary64 -/

theorem Scaled.isMultipleOf_iff (a b : Scaled) :
    a.isMultipleOf b = true ↔ Multiple a.value b.value := by
  let e := min a.exponent b.exponent
  have left : (a.coefficientAt e : ℚ) * 2 ^ e = a.value :=
    a.coefficientAt_mul (Int.min_le_left _ _)
  have right : (b.coefficientAt e : ℚ) * 2 ^ e = b.value :=
    b.coefficientAt_mul (Int.min_le_right _ _)
  have power : (2 : ℚ) ^ e ≠ 0 := zpow_ne_zero _ two_ne_zero
  have nonzero : b.coefficient ≠ 0 ↔ b.value ≠ 0 := by
    rw [value, mul_ne_zero_iff, and_iff_left (zpow_ne_zero _ two_ne_zero), Int.cast_ne_zero]
  rw [isMultipleOf, Bool.and_eq_true, bne_iff_ne, beq_iff_eq, nonzero, Multiple,
    ← Int.dvd_iff_emod_eq_zero]
  refine and_congr_right fun _ => ?_
  change b.coefficientAt e ∣ a.coefficientAt e ↔ _
  rw [← left, ← right]
  constructor
  · rintro ⟨k, hk⟩
    refine ⟨k, ?_⟩
    rw [hk]
    push_cast
    ring
  · rintro ⟨k, hk⟩
    rw [← mul_assoc] at hk
    refine ⟨k, ?_⟩
    rw [mul_comm]
    exact_mod_cast mul_right_cancel₀ power hk

namespace Number

variable {d m n : Number} {b c : Binary} {i j : ℤ}

theorem isMultipleOf_of_integers (hm : m.toNumeric.integer? = some i)
    (hd : d.toNumeric.integer? = some j) :
    m.toNumeric.isMultipleOf d.toNumeric = true ↔ Multiple i j := by
  rw [Numeric.isMultipleOf, hm, hd, multiple_int]
  simp only
  rw [Bool.and_eq_true, bne_iff_ne, beq_iff_eq, Int.dvd_iff_emod_eq_zero]

theorem isMultipleOf_of_real
    (hreal : m.toNumeric.integer? = none ∨ d.toNumeric.integer? = none)
    (hm : m.toNumeric.binary? = some b) (hd : d.toNumeric.binary? = some c) :
    m.toNumeric.isMultipleOf d.toNumeric = true ↔ Multiple b.value c.value := by
  have scaled : m.toNumeric.isMultipleOf d.toNumeric =
      Scaled.isMultipleOf ⟨b.coefficient, b.exponent⟩ ⟨c.coefficient, c.exponent⟩ := by
    rw [Numeric.isMultipleOf]
    rcases hreal with h | h
    · simp only [h, hm, hd]
    · cases m.toNumeric.integer? <;> simp only [h, hm, hd]
  rw [scaled, Scaled.isMultipleOf_iff]
  rfl

theorem isMultipleOf_reals (d : Number) (h : b.value = c.value) :
    (Numeric.real b).isMultipleOf d.toNumeric = (Numeric.real c).isMultipleOf d.toNumeric := by
  obtain ⟨r, hr, -⟩ := d.binary?_exact
  have left := isMultipleOf_of_real (m := .real b) (.inl rfl) rfl hr
  have right := isMultipleOf_of_real (m := .real c) (.inl rfl) rfl hr
  rw [h] at left
  exact Bool.eq_iff_iff.mpr (left.trans right.symm)

theorem binary?_cases (hd : 0 < d.value) (hc : d.toNumeric.binary? = some c) :
    d.toNumeric.integer? = none ∧ c.value = d.value ∨
      ∃ k : ℕ, d.toNumeric.integer? = some (k : ℤ) ∧ 0 < k ∧ k < 2 ^ 64 ∧ d.value = k ∧
        c.value = Binary.nearest k := by
  cases d with
  | natural k =>
    have positive : 0 < k.val := Nat.cast_pos.mp hd
    obtain ⟨r, hr, hvalue⟩ := binary?_natural positive
    obtain rfl := Option.some.inj (hr.symm.trans hc)
    exact .inr ⟨k.val, rfl, positive, k.isLt, rfl, hvalue⟩
  | negative k =>
    have below : (negative k).value < 0 := Int.cast_lt_zero.mpr (Int.negSucc_lt_zero _)
    exact absurd hd below.not_gt
  | real b =>
    cases hc
    exact .inl ⟨rfl, rfl⟩

section Mixed

variable (hm : m.toNumeric.integer? = some i) (hb : b.value = i) (hd : 0 < d.value)
  (hc : d.toNumeric.binary? = some c)
include hm hb hd hc

/-- What divides an integer exactly has to divide it through binary64. -/
theorem isMultipleOf_mixed
    (h : ∀ k : ℕ, 0 < k → k < 2 ^ 64 → d.value = k → c.value = Binary.nearest k →
      (Multiple i k ↔ Multiple i c.value)) :
    m.toNumeric.isMultipleOf d.toNumeric = (Numeric.real b).isMultipleOf d.toNumeric := by
  have hvalue := (value_of_integer? hm).1
  have right := isMultipleOf_of_real (m := .real b) (.inl rfl) rfl hc
  rw [hb] at right
  refine Bool.eq_iff_iff.mpr (Iff.trans ?_ right.symm)
  rcases binary?_cases hd hc with ⟨hj, -⟩ | ⟨k, hj, hk, hlt, hdk, hck⟩
  · obtain ⟨r, hr, exact⟩ := m.binary?_exact
    rw [isMultipleOf_of_real (.inr hj) hr hc, exact b (hb.trans hvalue.symm), hvalue]
  · rw [isMultipleOf_of_integers hm hj, Int.cast_natCast]
    exact h k hk hlt hdk hck

/-- A divisor that rounding keeps, or takes beyond all integers, divides an integer and an equal
real number alike. -/
theorem isMultipleOf_kept (hkept : c.value = d.value ∨ c.value = 2 ^ 64) :
    m.toNumeric.isMultipleOf d.toNumeric = (Numeric.real b).isMultipleOf d.toNumeric := by
  refine isMultipleOf_mixed hm hb hd hc fun k hk hlt hdk hck => ?_
  rcases hkept with kept | beyond
  · rw [kept, hdk]
  · have twice : (2 ^ 64 : ℚ) < 2 * k := by
      rw [← beyond, hck]
      exact Binary.nearest_lt hk
    have twice : 2 ^ 64 < 2 * k := by exact_mod_cast twice
    have hi := (value_of_integer? hm).2
    rw [beyond]
    by_cases hzero : i = 0
    · rw [hzero, Int.cast_zero]
      exact iff_of_true (multiple_zero (Nat.cast_ne_zero.mpr hk.ne')) (multiple_zero (by norm_num))
    · refine iff_of_false (fun hmultiple => ?_) fun hmultiple => ?_
      · -- Only the divisor itself is a multiple of it, and no real number is equal to it.
        have itself := hmultiple.natAbs_eq hzero (by omega)
        have magnitude : |b.value| = k := by rw [hb, ← itself, Nat.cast_natAbs, Int.cast_abs]
        have kept : (k : ℚ) = 2 ^ 64 := by
          rw [← Binary.nearest_of_value hk magnitude, ← hck, beyond]
        exact hlt.ne (by exact_mod_cast kept)
      · exact hzero (Multiple.eq_zero (k := 2 ^ 64) (by exact_mod_cast hmultiple) hi)

theorem isMultipleOf_small (hsmall : i.natAbs < 2 ^ 53) :
    m.toNumeric.isMultipleOf d.toNumeric = (Numeric.real b).isMultipleOf d.toNumeric := by
  refine isMultipleOf_mixed hm hb hd hc fun k hk _ _ hck => ?_
  by_cases hlt : k < 2 ^ 53
  · rw [hck, Binary.nearest_small hk hlt]
  · obtain ⟨l, hl, hlarge⟩ := Binary.nearest_natural hk
    have hlarge := hlarge (Nat.le_of_not_lt hlt)
    rw [hck, hl]
    by_cases hzero : i = 0
    · rw [hzero, Int.cast_zero]
      exact iff_of_true (multiple_zero (Nat.cast_ne_zero.mpr hk.ne'))
        (multiple_zero (Nat.cast_ne_zero.mpr (by omega)))
    · exact iff_of_false (fun h => hzero (h.eq_zero (by omega)))
        fun h => hzero (h.eq_zero (by omega))

end Mixed

/-- Where rounding does not keep a divisor, the rounded divisor is real and an integer, and only the
real number is a multiple. -/
theorem kept_of_alike (hd : 0 < d.value) (hc : d.toNumeric.binary? = some c)
    (h : ∀ m n : Number, m.value = n.value →
      m.toNumeric.isMultipleOf d.toNumeric = n.toNumeric.isMultipleOf d.toNumeric) :
    c.value = d.value ∨ c.value = 2 ^ 64 := by
  rcases binary?_cases hd hc with ⟨-, same⟩ | ⟨k, hj, hk, hlt, hdk, hck⟩
  · exact .inl same
  · obtain ⟨l, hl, -⟩ := Binary.nearest_natural hk
    have hcl : c.value = l := hck.trans hl
    have most : (l : ℚ) ≤ 2 ^ 64 := hl ▸ Binary.nearest_le hk hlt
    have most : l ≤ 2 ^ 64 := by exact_mod_cast most
    have twice : (l : ℚ) < 2 * k := hl ▸ Binary.nearest_lt hk
    have twice : l < 2 * k := by exact_mod_cast twice
    have positive : (0 : ℚ) < l := hl ▸ Binary.nearest_pos hk
    rcases Nat.lt_or_eq_of_le most with within | beyond
    · left
      have divided : (Numeric.real c).isMultipleOf d.toNumeric = true :=
        (isMultipleOf_of_real (m := .real c) (.inl rfl) rfl hc).mpr
          (multiple_self (by rw [hcl]; exact positive.ne'))
      have integer : (natural ⟨l, within⟩).toNumeric.integer? = some (l : ℤ) := rfl
      have equal := h (.natural ⟨l, within⟩) (.real c) hcl.symm
      have multiple := (isMultipleOf_of_integers integer hj).mp (equal.trans divided)
      rw [Int.cast_natCast k] at multiple
      have itself : l = k := multiple.natAbs_eq (by exact_mod_cast positive.ne') twice
      rw [hcl, hdk, itself]
    · right
      rw [hcl, beyond]
      norm_num

end Number

end SchemaLogic
