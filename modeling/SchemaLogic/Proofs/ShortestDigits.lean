import SchemaLogic.Proofs.DecimalText
import SchemaLogic.Proofs.Rounding

/-! # The shortest digits of integers

The shortest decimal that reads back as a number need not denote it. Below 2 ^ 53 it does for
integers: other integers are too far away to read back. -/
namespace SchemaLogic

namespace Digits

def value (d : Digits) : ℚ := d.digits * 10 ^ d.exponent

theorem value_dropZeros (fuel : Nat) (d : Digits) : (dropZeros fuel d).value = d.value := by
  induction fuel generalizing d with
  | zero => rfl
  | succ fuel ih =>
    rw [dropZeros]
    split
    · next h =>
      have whole : (d.digits : ℚ) = (d.digits / 10 : ℕ) * 10 := by
        exact_mod_cast (Nat.div_mul_cancel (Nat.dvd_of_mod_eq_zero h.1)).symm
      rw [ih, value, value, whole, zpow_add₀ (by norm_num), zpow_one]
      ring
    · rfl

/-! ## Signs -/

theorem exponent_le {b c : Binary} (h : |b.value| = |c.value|) : c.exponent ≤ b.exponent := by
  by_contra less
  rw [Int.not_le] at less
  have full : 2 ^ 52 ≤ c.mantissa := by
    rcases c.canonical.2.2.2 with full | least
    · exact full
    · have := b.canonical.2.1
      omega
  have full : (2 ^ 52 : ℚ) ≤ c.mantissa := by exact_mod_cast full
  have small : (b.mantissa : ℚ) < 2 ^ 53 := by exact_mod_cast b.canonical.1
  have power : (2 : ℚ) ^ (b.exponent + 1) ≤ 2 ^ c.exponent := zpow_le_zpow_right₀ one_le_two less
  have apart : |b.value| < |c.value| := by
    rw [Binary.abs_value, Binary.abs_value]
    calc (b.mantissa * 2 ^ b.exponent : ℚ) < 2 ^ 53 * 2 ^ b.exponent :=
          mul_lt_mul_of_pos_right small (zpow_pos two_pos _)
      _ = 2 ^ 52 * 2 ^ (b.exponent + 1) := by
          rw [zpow_add₀ two_ne_zero, zpow_one]
          ring
      _ ≤ c.mantissa * 2 ^ c.exponent :=
          mul_le_mul full power (zpow_nonneg two_pos.le _) (Nat.cast_nonneg _)
  exact apart.ne h

/-- Numbers of one magnitude have one mantissa and one exponent, and so the same digits. -/
theorem shortest_congr (tie : Tie) {b c : Binary} (h : |b.value| = |c.value|) :
    shortest tie b = shortest tie c := by
  have exponent : b.exponent = c.exponent := Int.le_antisymm (exponent_le h.symm) (exponent_le h)
  rw [Binary.abs_value, Binary.abs_value, exponent] at h
  have mantissa : b.mantissa = c.mantissa := by
    exact_mod_cast mul_right_cancel₀ (zpow_ne_zero _ two_ne_zero) h
  obtain ⟨negative, bits, power, canonical⟩ := b
  subst mantissa exponent
  rfl

/-! ## Decimals that read back -/

def scale (ten two : ℤ) : ℕ := 10 ^ (-ten).toNat * 2 ^ (-two).toNat

theorem scale_pos (ten two : ℤ) : (0 : ℚ) < scale ten two :=
  Nat.cast_pos.mpr (Nat.mul_pos (Nat.pow_pos (by decide)) (Nat.two_pow_pos _))

section Aligned

variable {decimal binary : ℕ} {ten two : ℤ}

theorem cast_aligned :
    ((aligned decimal ten binary two).1 : ℚ) = decimal * 10 ^ ten * scale ten two ∧
      ((aligned decimal ten binary two).2 : ℚ) = binary * 2 ^ two * scale ten two := by
  have natural (base k : ℕ) : ((Nat.pow base k : ℕ) : ℚ) = (base : ℚ) ^ k := Nat.cast_pow base k
  have power (base : ℚ) (hbase : base ≠ 0) (e : ℤ) :
      base ^ e.toNat = base ^ e * base ^ (-e).toNat := by
    have shift : e + ((-e).toNat : ℤ) = e.toNat := by omega
    rw [← zpow_natCast, ← zpow_natCast, ← zpow_add₀ hbase, shift]
  simp only [aligned, scale, Nat.cast_mul, natural, Nat.cast_pow, Nat.cast_ofNat]
  rw [power 10 (by norm_num) ten, power 2 (by norm_num) two]
  constructor <;> ring

theorem aligned_pos : 0 < (aligned 1 ten binary two).1 := by
  rw [← Nat.cast_pos (α := ℚ), cast_aligned.1]
  have power : (0 : ℚ) < 10 ^ ten := zpow_pos (by norm_num) _
  exact mul_pos (by simpa using power) (scale_pos _ _)

theorem aligned_le_iff : (aligned decimal ten binary two).1 ≤ (aligned decimal ten binary two).2 ↔
    (decimal * 10 ^ ten : ℚ) ≤ binary * 2 ^ two := by
  rw [← Nat.cast_le (α := ℚ), cast_aligned.1, cast_aligned.2,
    mul_le_mul_iff_left₀ (scale_pos ten two)]

theorem aligned_ge_iff : (aligned decimal ten binary two).2 ≤ (aligned decimal ten binary two).1 ↔
    (binary * 2 ^ two : ℚ) ≤ decimal * 10 ^ ten := by
  rw [← Nat.cast_le (α := ℚ), cast_aligned.1, cast_aligned.2,
    mul_le_mul_iff_left₀ (scale_pos ten two)]

end Aligned

section ReadsBack

variable {b : Binary} {decimal : ℕ} {ten : ℤ}

/-- What reads back lies between the middles of the gaps around a number. -/
theorem readsBack_bounds (h : readsBack b decimal ten = true) :
    (lowerMiddle b * 2 ^ (b.exponent - 2) : ℚ) ≤ decimal * 10 ^ ten ∧
      (decimal * 10 ^ ten : ℚ) ≤ upperMiddle b * 2 ^ (b.exponent - 2) := by
  rw [← aligned_ge_iff, ← aligned_le_iff]
  simp only [readsBack] at h
  split at h
  · simpa using h
  · simp only [Bool.and_eq_true, decide_eq_true_eq] at h
    exact ⟨h.1.le, h.2.le⟩

theorem quarters (b : Binary) :
    (b.mantissa * 2 ^ b.exponent : ℚ) = (4 * b.mantissa : ℕ) * 2 ^ (b.exponent - 2) := by
  rw [zpow_sub₀ two_ne_zero]
  push_cast
  ring

theorem readsBack_odd (h : readsBack b decimal ten = true) (odd : b.mantissa % 2 = 1) :
    (lowerMiddle b * 2 ^ (b.exponent - 2) : ℚ) < decimal * 10 ^ ten ∧
      (decimal * 10 ^ ten : ℚ) < upperMiddle b * 2 ^ (b.exponent - 2) := by
  rw [← not_le, ← not_le, ← aligned_le_iff, ← aligned_ge_iff, Nat.not_le, Nat.not_le]
  simpa [readsBack, odd] using h

theorem readsBack_of_between
    (low : (lowerMiddle b * 2 ^ (b.exponent - 2) : ℚ) < decimal * 10 ^ ten)
    (high : (decimal * 10 ^ ten : ℚ) < upperMiddle b * 2 ^ (b.exponent - 2)) :
    readsBack b decimal ten = true := by
  rw [← not_le, ← aligned_le_iff, Nat.not_le] at low
  rw [← not_le, ← aligned_ge_iff, Nat.not_le] at high
  simp only [readsBack]
  split
  · simp [low.le, high.le]
  · simp [low, high]

/-- A decimal that denotes a number reads back as it. -/
theorem readsBack_of_value (hb : 0 < b.mantissa)
    (h : (decimal * 10 ^ ten : ℚ) = b.mantissa * 2 ^ b.exponent) :
    readsBack b decimal ten = true := by
  have unit : (0 : ℚ) < 2 ^ (b.exponent - 2) := zpow_pos two_pos _
  have low : lowerMiddle b < 4 * b.mantissa := by
    rw [lowerMiddle]
    split <;> omega
  have high : 4 * b.mantissa < upperMiddle b := Nat.lt_add_of_pos_right (by decide)
  apply readsBack_of_between
  · rw [h, quarters, mul_lt_mul_iff_left₀ unit, Nat.cast_lt]
    exact low
  · rw [h, quarters, mul_lt_mul_iff_left₀ unit, Nat.cast_lt]
    exact high

theorem readsBack_of_onGrid? {tie : Tie} (h : onGrid? tie b ten = some decimal) :
    readsBack b decimal ten = true := by
  simp only [onGrid?] at h
  split at h
  · next low high =>
    cases h
    split
    · exact low
    · split
      · exact high
      · split
        · split
          · exact low
          · exact high
        · exact high
  · next low _ =>
    cases h
    exact low
  · next _ high =>
    cases h
    exact high
  · cases h

theorem onGrid?_of_value (tie : Tie) (hb : 0 < b.mantissa)
    (h : (decimal * 10 ^ ten : ℚ) = b.mantissa * 2 ^ b.exponent) :
    (onGrid? tie b ten).isSome = true := by
  have positive : 0 < (aligned 1 ten b.mantissa b.exponent).1 := aligned_pos
  have multiple : (aligned 1 ten b.mantissa b.exponent).2 =
      decimal * (aligned 1 ten b.mantissa b.exponent).1 := by
    apply Nat.cast_injective (R := ℚ)
    rw [Nat.cast_mul, cast_aligned.1, cast_aligned.2, ← h, Nat.cast_one]
    ring
  have below : (aligned 1 ten b.mantissa b.exponent).2 / (aligned 1 ten b.mantissa b.exponent).1 =
      decimal := by rw [multiple, Nat.mul_div_cancel _ positive]
  have reads := readsBack_of_value hb h
  simp only [onGrid?, below, reads]
  cases readsBack b (decimal + 1) ten <;> rfl

/-- Of the grids that are tried the first with a point close enough counts, so no grid finer than
one that is known to have such a point. -/
theorem shortest_of_hit {tie : Tie} (hb : 0 < b.mantissa) {l : ℕ} (hl : l < 17)
    (hit : (onGrid? tie b (leadingExponent b - Int.ofNat l)).isSome = true) :
    ∃ k ≤ l, ∃ digits, onGrid? tie b (leadingExponent b - Int.ofNat k) = some digits ∧
      shortest tie b = dropZeros 18 ⟨digits, leadingExponent b - Int.ofNat k⟩ := by
  let f (k : ℕ) := (onGrid? tie b (leadingExponent b - Int.ofNat k)).map fun digits =>
    dropZeros 18 ⟨digits, leadingExponent b - Int.ofNat k⟩
  have unfolded : shortest tie b = ((List.range 17).findSome? f).getD ⟨0, 0⟩ := by
    rw [shortest, if_neg hb.ne']
  have grids : List.range 17 = List.range (l + 1) ++ (List.range (16 - l)).map (l + 1 + ·) := by
    rw [← List.range_add]
    congr 1
    omega
  have hit : (f l).isSome = true := by rwa [Option.isSome_map]
  obtain ⟨d, hd⟩ := Option.isSome_iff_exists.mp
    (List.findSome?_isSome_iff.mpr ⟨l, List.mem_range.mpr l.lt_succ_self, hit⟩)
  obtain ⟨k, hk, hfk⟩ := List.exists_of_findSome?_eq_some hd
  obtain ⟨digits, hgrid, rfl⟩ := Option.map_eq_some_iff.mp hfk
  refine ⟨k, Nat.le_of_lt_succ (List.mem_range.mp hk), digits, hgrid, ?_⟩
  rw [unfolded, grids, List.findSome?_append, hd]
  rfl

end ReadsBack

/-! ## Integers below 2 ^ 53 -/

section Integers

variable {b : Binary} {n : ℕ} (h : |b.value| = n)
include h

theorem exponent_nonpos (hn : n < 2 ^ 53) : b.exponent ≤ 0 := by
  by_contra high
  have full : 2 ^ 52 ≤ b.mantissa := by
    rcases b.canonical.2.2.2 with full | least
    · exact full
    · omega
  have mantissa : (2 ^ 52 : ℚ) ≤ b.mantissa := by exact_mod_cast full
  have power : (2 : ℚ) ^ (1 : ℤ) ≤ 2 ^ b.exponent := zpow_le_zpow_right₀ one_le_two (by omega)
  have large : (2 ^ 53 : ℚ) ≤ n := by
    rw [← h, Binary.abs_value]
    calc (2 ^ 53 : ℚ) = 2 ^ 52 * 2 ^ (1 : ℤ) := by norm_num
      _ ≤ b.mantissa * 2 ^ b.exponent :=
        mul_le_mul mantissa power (by norm_num) (Nat.cast_nonneg _)
  have : 2 ^ 53 ≤ n := by exact_mod_cast large
  omega

theorem mantissa_pos (hpos : 0 < n) : 0 < b.mantissa := by
  by_contra zero
  rw [Binary.abs_value, Nat.eq_zero_of_not_pos zero, Nat.cast_zero, zero_mul] at h
  exact hpos.ne' (by exact_mod_cast h.symm)

theorem eq_of_readsBack (hpos : 0 < n) (hn : n < 2 ^ 53) {decimal k : ℕ}
    (hreads : readsBack b decimal k = true) : decimal * 10 ^ k = n := by
  obtain ⟨low, high⟩ := readsBack_bounds hreads
  have middle : 4 * b.mantissa ≤ lowerMiddle b + 2 := by
    have := mantissa_pos h hpos
    rw [lowerMiddle]
    split <;> omega
  have middle : (4 * b.mantissa : ℚ) ≤ lowerMiddle b + 2 := by exact_mod_cast middle
  have unit : (2 : ℚ) ^ b.exponent ≤ 1 := zpow_le_one_of_nonpos₀ one_le_two (exponent_nonpos h hn)
  have quarter : (0 : ℚ) < 2 ^ (b.exponent - 2) := zpow_pos two_pos _
  have whole : (2 : ℚ) ^ b.exponent = 4 * 2 ^ (b.exponent - 2) := by
    rw [zpow_sub₀ two_ne_zero]
    ring
  have value : (n : ℚ) = 4 * b.mantissa * 2 ^ (b.exponent - 2) := by
    rw [← h, Binary.abs_value, quarters]
    push_cast
    rfl
  rw [upperMiddle] at high
  push_cast at high
  rw [zpow_natCast] at low high
  have below : 2 * (n : ℚ) ≤ 2 * (decimal * 10 ^ k) + 1 := by nlinarith
  have above : 2 * (decimal * 10 ^ k : ℚ) ≤ 2 * n + 1 := by nlinarith
  have below : 2 * n ≤ 2 * (decimal * 10 ^ k) + 1 := by exact_mod_cast below
  have above : 2 * (decimal * 10 ^ k) ≤ 2 * n + 1 := by exact_mod_cast above
  omega

theorem leadingExponent_integer (hpos : 0 < n) (hn : n < 2 ^ 53) :
    0 ≤ leadingExponent b ∧ leadingExponent b ≤ 16 := by
  have mantissa := mantissa_pos h hpos
  have unit : (0 : ℚ) < 2 ^ b.exponent := zpow_pos two_pos _
  have value : (b.mantissa * 2 ^ b.exponent : ℚ) = n := by rw [← h, Binary.abs_value]
  have low : (2 : ℚ) ^ ((b.mantissa.log2 : ℤ) + b.exponent) ≤ n := by
    rw [zpow_add₀ two_ne_zero, ← value, mul_le_mul_iff_left₀ unit, zpow_natCast]
    exact_mod_cast Nat.log2_self_le mantissa.ne'
  have high : (n : ℚ) < 2 ^ ((b.mantissa.log2 : ℤ) + 1 + b.exponent) := by
    rw [zpow_add₀ two_ne_zero, ← value, mul_lt_mul_iff_left₀ unit, ← Nat.cast_one, ← Nat.cast_add,
      zpow_natCast]
    exact_mod_cast Nat.lt_log2_self
  have least : (2 : ℚ) ^ (0 : ℤ) < 2 ^ ((b.mantissa.log2 : ℤ) + 1 + b.exponent) := by
    rw [zpow_zero]
    exact lt_of_le_of_lt (by exact_mod_cast hpos) high
  have most : (2 : ℚ) ^ ((b.mantissa.log2 : ℤ) + b.exponent) < 2 ^ (53 : ℤ) :=
    lt_of_le_of_lt low (by exact_mod_cast hn)
  have least := (zpow_lt_zpow_iff_right₀ (one_lt_two (α := ℚ))).mp least
  have most := (zpow_lt_zpow_iff_right₀ (one_lt_two (α := ℚ))).mp most
  have one : (aligned 1 0 b.mantissa b.exponent).1 ≤ (aligned 1 0 b.mantissa b.exponent).2 := by
    rw [aligned_le_iff, value]
    simpa using Nat.succ_le_of_lt hpos
  simp only [leadingExponent, Int.ofNat_eq_natCast, fdiv_guess]
  split
  · omega
  · split
    · omega
    · next below =>
      refine ⟨?_, by omega⟩
      by_contra negative
      have zero : ((b.mantissa.log2 : Int) + b.exponent) * 30103 / 100000 = 0 := by omega
      rw [zero] at below
      simp [one] at below

/-- The digits are found on the grid of the integers or on a coarser one. -/
theorem shortest_integer (tie : Tie) (hpos : 0 < n) (hn : n < 2 ^ 53) :
    ∃ k digits : ℕ, onGrid? tie b k = some digits ∧
      shortest tie b = dropZeros 18 ⟨digits, k⟩ := by
  have mantissa := mantissa_pos h hpos
  obtain ⟨low, high⟩ := leadingExponent_integer h hpos hn
  obtain ⟨l, hl⟩ := Int.eq_ofNat_of_zero_le low
  have hit : (onGrid? tie b (leadingExponent b - Int.ofNat l)).isSome = true := by
    have units : leadingExponent b - Int.ofNat l = 0 := by rw [hl]; exact Int.sub_self _
    have here : (n * 10 ^ (0 : ℤ) : ℚ) = b.mantissa * 2 ^ b.exponent := by
      rw [zpow_zero, mul_one, ← h, Binary.abs_value]
    rw [units]
    exact onGrid?_of_value tie mantissa here
  obtain ⟨k, coarse, digits, hgrid, hshortest⟩ := shortest_of_hit mantissa (by omega) hit
  have power : leadingExponent b - Int.ofNat k = (l - k : ℕ) := by
    rw [hl, Nat.cast_sub coarse]
    rfl
  rw [power] at hgrid hshortest
  exact ⟨l - k, digits, hgrid, hshortest⟩

/-- The shortest digits of an integer denote it, as no other integer reads back. -/
theorem value_shortest (tie : Tie) (hn : n < 2 ^ 53) : (shortest tie b).value = n := by
  by_cases hpos : 0 < n
  · obtain ⟨k, digits, hgrid, hshortest⟩ := shortest_integer h tie hpos hn
    have found := eq_of_readsBack h hpos hn (readsBack_of_onGrid? hgrid)
    rw [hshortest, value_dropZeros, value, zpow_natCast, ← found]
    push_cast
    rfl
  · have zero : n = 0 := Nat.eq_zero_of_not_pos hpos
    have mantissa : b.mantissa = 0 := by
      rw [zero, Binary.abs_value, Nat.cast_zero, mul_eq_zero] at h
      rcases h with h | h
      · exact_mod_cast h
      · exact absurd h (zpow_ne_zero _ two_ne_zero)
    rw [shortest, if_pos mantissa, zero, value, Nat.cast_zero, zero_mul]

end Integers

end Digits

/-! ## Texts of real numbers -/

theorem Decimal.ofDigits_append_zeros (cs : List Char) (j : ℕ) :
    ofDigits (cs ++ List.replicate j '0') = ofDigits cs * 10 ^ j := by
  induction j with
  | zero => simp
  | succ j ih =>
    rw [List.replicate_succ', ← List.append_assoc, ofDigits, List.foldl_append, ← ofDigits, ih,
      Nat.pow_succ]
    change 10 * (ofDigits cs * 10 ^ j) + 0 = _
    ring

theorem Decimal.ofDigits_zeros_append (i : ℕ) (cs : List Char) :
    ofDigits (List.replicate i '0' ++ cs) = ofDigits cs := by
  induction i with
  | zero => rfl
  | succ i ih => exact ih

theorem Digits.value_numeral (d : Digits) (negative isPositional : Bool) :
    (d.numeral negative isPositional).decimal.value = d.value := by
  obtain ⟨i, j, hdigits, hexponent, -⟩ := d.numeral_digits negative isPositional
  have power : (10 : ℚ) ^ j * 10 ^ (d.exponent - j) = 10 ^ d.exponent := by
    rw [← zpow_natCast, ← zpow_add₀ (by norm_num)]
    congr 1
    omega
  rw [Decimal.value, Numeral.decimal, hdigits, hexponent, Decimal.ofDigits_append_zeros,
    Decimal.ofDigits_zeros_append, Decimal.ofDigits_toDigits, Nat.cast_mul, Nat.cast_pow,
    Nat.cast_ofNat, mul_assoc, power, value]

theorem Number.parse?_text_real (b : Binary) :
    ∃ a, Decimal.parse? (real b).text = some a ∧ a.value = (Digits.shortest .even b).value := by
  obtain ⟨isPositional, htext⟩ := b.toList_render
  have reads := Numeral.parseChars?_chars (Digits.numeral_valid .even b isPositional)
  rw [← htext] at reads
  exact ⟨_, reads, Digits.value_numeral _ _ _⟩

end SchemaLogic
