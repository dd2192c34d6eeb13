import SchemaLogic.Proofs.ShortestDigits

/-! # Different numbers have different texts

Seventeen digits are enough for a binary64 number, so its shortest digits read back as it, and no
decimal reads back as two numbers. Reals are told apart from integers by a point or a power of
ten. -/
namespace SchemaLogic

namespace Digits

/-! ## Seventeen digits are enough -/

theorem ten_zpow_le_two_zpow {p q : ℕ} {n k : ℤ} (hp : p ≠ 0)
    (base : ((10 : ℚ) ^ p) ^ n ≤ (2 ^ q) ^ n) (h : q * n ≤ p * k) : (10 : ℚ) ^ n ≤ 2 ^ k := by
  have swap (x : ℚ) (i : ℤ) (j : ℕ) : (x ^ i) ^ j = x ^ (j * i) := by
    rw [← zpow_natCast, ← zpow_mul, mul_comm]
  have swap' (x : ℚ) (i : ℤ) (j : ℕ) : (x ^ j) ^ i = x ^ (j * i) := by
    rw [← zpow_natCast, ← zpow_mul]
  refine le_of_pow_le_pow_left₀ hp (zpow_nonneg two_pos.le _) ?_
  calc ((10 : ℚ) ^ n) ^ p = (10 ^ p) ^ n := by rw [swap, swap']
    _ ≤ (2 ^ q) ^ n := base
    _ = 2 ^ (q * n) := swap' 2 n q
    _ ≤ 2 ^ (p * k) := zpow_le_zpow_right₀ one_le_two h
    _ = (2 ^ k) ^ p := (swap 2 k p).symm

section Grid

variable {b : Binary} (hb : 0 < b.mantissa)
include hb

theorem leadingExponent_le : (10 : ℚ) ^ leadingExponent b ≤ b.mantissa * 2 ^ b.exponent := by
  have reached {e : ℤ} (h : (aligned 1 e b.mantissa b.exponent).1 ≤
      (aligned 1 e b.mantissa b.exponent).2) : (10 : ℚ) ^ e ≤ b.mantissa * 2 ^ b.exponent := by
    simpa using aligned_le_iff.mp h
  obtain ⟨hmantissa, hlow, hhigh, -⟩ := b.canonical
  have bits : b.mantissa.log2 < 53 := (Nat.log2_lt hb.ne').mpr hmantissa
  have power : (2 : ℚ) ^ ((b.mantissa.log2 : ℤ) + b.exponent) ≤ b.mantissa * 2 ^ b.exponent := by
    rw [zpow_add₀ two_ne_zero, zpow_natCast]
    refine mul_le_mul_of_nonneg_right ?_ (zpow_nonneg two_pos.le _)
    exact_mod_cast Nat.log2_self_le hb.ne'
  simp only [leadingExponent, Int.ofNat_eq_natCast, fdiv_guess]
  split
  · next h => exact reached (of_decide_eq_true h)
  · split
    · next h => exact reached (of_decide_eq_true h)
    · -- The guess is near the logarithm of the number, which lies between 59/196 and 28/93 of
      -- the number of bits; one less is below it on either side of one.
      refine le_trans ?_ power
      have range : -1074 ≤ (b.mantissa.log2 : ℤ) + b.exponent ∧
          (b.mantissa.log2 : ℤ) + b.exponent ≤ 1023 := by omega
      generalize (b.mantissa.log2 : ℤ) + b.exponent = k at range
      rcases le_total 0 (k * 30103 / 100000 - 1) with positive | negative
      · refine ten_zpow_le_two_zpow (p := 59) (q := 196) (by decide) ?_ (by omega)
        exact zpow_le_zpow_left₀ positive (by norm_num) (by norm_num)
      · refine ten_zpow_le_two_zpow (p := 28) (q := 93) (by decide) ?_ (by omega)
        rw [← neg_neg (k * 30103 / 100000 - 1), zpow_neg, zpow_neg _ (-_)]
        exact inv_anti₀ (by positivity) (zpow_le_zpow_left₀ (by omega) (by norm_num) (by norm_num))

omit hb in
theorem grid_neighbours (ten : ℤ) {below : ℕ}
    (h : below = (aligned 1 ten b.mantissa b.exponent).2 /
      (aligned 1 ten b.mantissa b.exponent).1) :
    (below * 10 ^ ten : ℚ) ≤ b.mantissa * 2 ^ b.exponent ∧
      (b.mantissa * 2 ^ b.exponent : ℚ) < (below + 1 : ℕ) * 10 ^ ten := by
  have positive : 0 < (aligned 1 ten b.mantissa b.exponent).1 := aligned_pos
  have low : below * (aligned 1 ten b.mantissa b.exponent).1 ≤
      (aligned 1 ten b.mantissa b.exponent).2 := h ▸ Nat.div_mul_le_self _ _
  have high : (aligned 1 ten b.mantissa b.exponent).2 <
      (below + 1) * (aligned 1 ten b.mantissa b.exponent).1 := by
    rw [h, Nat.add_mul, Nat.one_mul]
    exact Nat.lt_div_mul_add positive
  rw [← Nat.cast_le (α := ℚ), Nat.cast_mul, cast_aligned.1, cast_aligned.2, Nat.cast_one, one_mul,
    ← mul_assoc] at low
  rw [← Nat.cast_lt (α := ℚ), Nat.cast_mul, cast_aligned.1, cast_aligned.2, Nat.cast_one, one_mul,
    ← mul_assoc] at high
  exact ⟨le_of_mul_le_mul_right low (scale_pos _ _), lt_of_mul_lt_mul_right high (scale_pos _ _).le⟩

/-- The nearer neighbour on a grid with seventeen digits reads back. -/
theorem readsBack_of_near {decimal : ℕ} {ten : ℤ}
    (fine : (10 ^ 16 * 10 ^ ten : ℚ) ≤ b.mantissa * 2 ^ b.exponent)
    (low : (b.mantissa * 2 ^ b.exponent - 10 ^ ten / 2 : ℚ) ≤ decimal * 10 ^ ten)
    (high : (decimal * 10 ^ ten : ℚ) ≤ b.mantissa * 2 ^ b.exponent + 10 ^ ten / 2) :
    readsBack b decimal ten = true := by
  have unit : (0 : ℚ) < 2 ^ (b.exponent - 2) := zpow_pos two_pos _
  have small : (b.mantissa * 2 ^ (b.exponent - 2) : ℚ) < 2 ^ 53 * 2 ^ (b.exponent - 2) := by
    rw [mul_lt_mul_iff_left₀ unit]
    exact_mod_cast b.canonical.1
  rw [quarters] at fine low high
  push_cast at fine low high
  apply readsBack_of_between
  · refine lt_of_lt_of_le ?_ low
    rw [lowerMiddle]
    split
    · next edge =>
      -- the gap below a power of two is half as wide, but so is the grid
      have mantissa : (b.mantissa : ℚ) = 2 ^ 52 := by exact_mod_cast edge.1
      rw [mantissa] at fine ⊢
      rw [Nat.cast_sub (by omega)]
      push_cast
      rw [mantissa]
      linarith
    · rw [Nat.cast_sub (by omega)]
      push_cast
      linarith
  · refine lt_of_le_of_lt high ?_
    rw [upperMiddle]
    push_cast
    linarith

theorem onGrid?_seventeen (tie : Tie) : (onGrid? tie b (leadingExponent b - 16)).isSome = true := by
  have ten : (10 : ℚ) ^ leadingExponent b = 10 ^ 16 * 10 ^ (leadingExponent b - 16) := by
    rw [zpow_sub₀ (by norm_num)]
    norm_num
    ring
  have fine := ten ▸ leadingExponent_le hb
  generalize hbelow : (aligned 1 (leadingExponent b - 16) b.mantissa b.exponent).2 /
    (aligned 1 (leadingExponent b - 16) b.mantissa b.exponent).1 = below
  obtain ⟨low, high⟩ := grid_neighbours (leadingExponent b - 16) hbelow.symm
  have reads : readsBack b below (leadingExponent b - 16) = true ∨
      readsBack b (below + 1) (leadingExponent b - 16) = true := by
    have grid : (0 : ℚ) < 10 ^ (leadingExponent b - 16) := zpow_pos (by norm_num) _
    have next : ((below + 1 : ℕ) * 10 ^ (leadingExponent b - 16) : ℚ) =
        below * 10 ^ (leadingExponent b - 16) + 10 ^ (leadingExponent b - 16) := by
      push_cast
      ring
    rcases le_total (b.mantissa * 2 ^ b.exponent : ℚ)
      (below * 10 ^ (leadingExponent b - 16) + 10 ^ (leadingExponent b - 16) / 2) with near | near
    · exact .inl (readsBack_of_near hb fine (by linarith) (by linarith))
    · exact .inr (readsBack_of_near hb fine (by rw [next]; linarith) (by rw [next]; linarith))
  simp only [onGrid?, hbelow]
  rcases reads with reads | reads
  · cases readsBack b (below + 1) (leadingExponent b - 16) <;> simp [reads]
  · cases readsBack b below (leadingExponent b - 16) <;> simp [reads]

/-- The shortest digits of a number read back as it. -/
theorem shortest_readsBack (tie : Tie) :
    ∃ digits ten, readsBack b digits ten = true ∧ (shortest tie b).value = digits * 10 ^ ten := by
  obtain ⟨n, -, digits, hgrid, hshortest⟩ :=
    shortest_of_hit hb (by decide : 16 < 17) (onGrid?_seventeen hb tie)
  refine ⟨digits, _, readsBack_of_onGrid? hgrid, ?_⟩
  rw [hshortest, value_dropZeros, value]

end Grid

/-! ## No decimal reads back as two numbers -/

section Apart

variable {b c : Binary}

/-- The gaps around two numbers meet at most in a middle, and that is the middle of a gap next to an
odd mantissa. -/
theorem upperMiddle_le (h : b.exponent < c.exponent ∨
      b.exponent = c.exponent ∧ b.mantissa < c.mantissa) :
    (upperMiddle b * 2 ^ (b.exponent - 2) : ℚ) ≤ lowerMiddle c * 2 ^ (c.exponent - 2) ∧
      (b.mantissa % 2 = 1 ∨ c.mantissa % 2 = 1 ∨
        (upperMiddle b * 2 ^ (b.exponent - 2) : ℚ) < lowerMiddle c * 2 ^ (c.exponent - 2)) := by
  have unit : (0 : ℚ) < 2 ^ (b.exponent - 2) := zpow_pos two_pos _
  rcases h with less | ⟨same, less⟩
  · obtain ⟨small, least, -⟩ := b.canonical
    have full : Nat.pow 2 52 ≤ c.mantissa := c.canonical.2.2.2.resolve_right (by omega)
    have small : b.mantissa < 9007199254740992 := small
    have full : 4503599627370496 ≤ c.mantissa := full
    have low : 18014398509481983 ≤ lowerMiddle c := by
      rw [lowerMiddle]
      split
      · omega
      · next edge =>
        have : c.mantissa ≠ 4503599627370496 := fun heq => edge ⟨heq, by omega⟩
        omega
    have power : (2 * 2 ^ (b.exponent - 2) : ℚ) ≤ 2 ^ (c.exponent - 2) := by
      rw [← zpow_one_add₀ two_ne_zero]
      exact zpow_le_zpow_right₀ one_le_two (by omega)
    have low : (2 * 18014398509481983 * 2 ^ (b.exponent - 2) : ℚ) ≤
        lowerMiddle c * 2 ^ (c.exponent - 2) := by
      have low : (18014398509481983 : ℚ) ≤ lowerMiddle c := by exact_mod_cast low
      calc (2 * 18014398509481983 * 2 ^ (b.exponent - 2) : ℚ)
          = 18014398509481983 * (2 * 2 ^ (b.exponent - 2)) := by ring
        _ ≤ lowerMiddle c * 2 ^ (c.exponent - 2) :=
          mul_le_mul low power (by positivity) (Nat.cast_nonneg _)
    have compare {k : ℕ} (hk : upperMiddle b ≤ k) :
        (upperMiddle b * 2 ^ (b.exponent - 2) : ℚ) ≤ k * 2 ^ (b.exponent - 2) :=
      mul_le_mul_of_nonneg_right (by exact_mod_cast hk) unit.le
    refine ⟨le_trans (compare (k := 2 * 18014398509481983) ?_) (by exact_mod_cast low), ?_⟩
    · rw [upperMiddle]
      omega
    · by_cases odd : b.mantissa % 2 = 1
      · exact .inl odd
      · refine .inr (.inr (lt_of_le_of_lt (compare (k := 2 * 18014398509481983 - 1) ?_)
          (lt_of_lt_of_le ?_ low)))
        · rw [upperMiddle]
          omega
        · rw [mul_lt_mul_iff_left₀ unit]
          norm_num
  · have low : 4 * c.mantissa - 2 ≤ lowerMiddle c := by
      rw [lowerMiddle]
      split <;> omega
    rw [same] at unit ⊢
    simp only [mul_le_mul_iff_left₀ unit, mul_lt_mul_iff_left₀ unit, Nat.cast_le, Nat.cast_lt,
      upperMiddle]
    omega

theorem lt_of_readsBack {m n : ℕ} {i j : ℤ} (h : b.exponent < c.exponent ∨
      b.exponent = c.exponent ∧ b.mantissa < c.mantissa) (hb : readsBack b m i = true)
    (hc : readsBack c n j = true) : (m * 10 ^ i : ℚ) < n * 10 ^ j := by
  obtain ⟨meet, parity⟩ := upperMiddle_le h
  have high := (readsBack_bounds hb).2
  have low := (readsBack_bounds hc).1
  rcases parity with odd | odd | apart
  · exact lt_of_lt_of_le ((readsBack_odd hb odd).2.trans_le meet) low
  · exact lt_of_le_of_lt (high.trans meet) (readsBack_odd hc odd).1
  · exact lt_of_lt_of_le (lt_of_le_of_lt high apart) low

theorem magnitude_of_shortest {tie : Tie} (h : (shortest tie b).value = (shortest tie c).value) :
    b.mantissa = c.mantissa ∧ b.exponent = c.exponent := by
  have zero {d : Binary} (hd : d.mantissa = 0) :
      (shortest tie d).value = 0 ∧ d.exponent = -1074 := by
    refine ⟨?_, d.canonical.2.2.2.resolve_left (by rw [hd]; decide)⟩
    rw [shortest, if_pos hd, value, Nat.cast_zero, zero_mul]
  have positive {d : Binary} (hd : 0 < d.mantissa) : 0 < (shortest tie d).value := by
    obtain ⟨digits, ten, reads, value⟩ := shortest_readsBack hd tie
    refine value ▸ lt_of_lt_of_le (mul_pos ?_ (zpow_pos two_pos _)) (readsBack_bounds reads).1
    rw [Nat.cast_pos, lowerMiddle]
    split <;> omega
  rcases Nat.eq_zero_or_pos b.mantissa with hb | hb
  · rcases Nat.eq_zero_or_pos c.mantissa with hc | hc
    · exact ⟨hb.trans hc.symm, (zero hb).2.trans (zero hc).2.symm⟩
    · exact absurd h ((zero hb).1 ▸ (positive hc).ne)
  · rcases Nat.eq_zero_or_pos c.mantissa with hc | hc
    · exact absurd h ((zero hc).1 ▸ (positive hb).ne')
    · obtain ⟨m, i, hm, hi⟩ := shortest_readsBack hb tie
      obtain ⟨n, j, hn, hj⟩ := shortest_readsBack hc tie
      rw [hi, hj] at h
      by_contra differ
      have order : (b.exponent < c.exponent ∨ b.exponent = c.exponent ∧ b.mantissa < c.mantissa) ∨
          (c.exponent < b.exponent ∨ c.exponent = b.exponent ∧ c.mantissa < b.mantissa) := by omega
      rcases order with less | less
      · exact (lt_of_readsBack less hm hn).ne h
      · exact (lt_of_readsBack less hn hm).ne' h

end Apart

end Digits

/-! ## What a text tells -/

namespace Numeral

variable {m n : Numeral}

def isMarked (n : Numeral) : Bool := n.fraction.isSome || n.power.isSome

/-- The text of a numeral tells its sign and whether it is marked, besides what it denotes. -/
theorem parts_of_chars (hm : m.Valid) (hn : n.Valid) (h : m.chars = n.chars) :
    m.negative = n.negative ∧ m.isMarked = n.isMarked ∧ m.decimal = n.decimal := by
  have unsigned : m.negative = n.negative ∧
      m.significand ++ m.power.elim [] Power.chars =
        n.significand ++ n.power.elim [] Power.chars := by
    rw [chars, chars] at h
    cases hneg : m.negative <;> cases hneg' : n.negative <;>
      simp only [hneg, hneg', if_true, Bool.false_eq_true, if_false, List.nil_append,
        List.singleton_append] at h
    · exact ⟨rfl, h⟩
    · exact absurd h (unsigned_ne_minus hm _)
    · exact absurd h.symm (unsigned_ne_minus hn _)
    · exact ⟨rfl, (List.cons.inj h).2⟩
  refine ⟨unsigned.1, ?_, ?_⟩
  · have marked := splitAt?_marked hm
    rw [unsigned.2, splitAt?_marked hn, Prod.mk.injEq] at marked
    have significand := splitAt?_significand hm
    rw [← marked.1, splitAt?_significand hn, Prod.mk.injEq] at significand
    have power := congrArg Option.isSome marked.2
    rw [Option.isSome_map, Option.isSome_map] at power
    rw [isMarked, isMarked, significand.2, power]
  · have reads := parseChars?_chars hm
    rw [h, parseChars?_chars hn] at reads
    exact (Option.some.inj reads).symm

end Numeral

theorem Digits.isMarked_numeral (d : Digits) (negative isPositional : Bool) :
    (d.numeral negative isPositional).isMarked = true := by
  rw [numeral]
  split
  · split
    · rfl
    · split <;> rfl
  · rw [Numeral.isMarked, Option.isSome_some, Bool.or_true]

namespace Number

/-- What the text of a number tells: its sign, whether it is real, and what its digits denote. -/
def summary : Number → Bool × Bool × ℚ
  | .natural k => (false, false, k.val)
  | .negative k => (true, false, (k.val + 1 : ℕ))
  | .real b => (b.negative, true, (Digits.shortest .even b).value)

theorem exists_numeral (n : Number) : ∃ m : Numeral, m.Valid ∧ n.text.toList = m.chars ∧
    (m.negative, m.isMarked, m.decimal.value) = n.summary := by
  have whole (negative : Bool) (k : ℕ) :
      ((Numeral.integer negative k).negative, (Numeral.integer negative k).isMarked,
        (Numeral.integer negative k).decimal.value) = (negative, false, (k : ℚ)) := by
    rw [Numeral.decimal_integer, Decimal.value, zpow_zero, mul_one]
    rfl
  cases n with
  | natural k =>
    refine ⟨.integer false k, Numeral.valid_integer _ _, ?_, whole false k⟩
    simp [text, Numeral.chars, Numeral.integer, Numeral.significand]
  | negative k =>
    refine ⟨.integer true (k + 1), Numeral.valid_integer _ _, ?_, whole true (k + 1)⟩
    simp [text, Numeral.chars, Numeral.integer, Numeral.significand]
  | real b =>
    obtain ⟨isPositional, htext⟩ := b.toList_render
    refine ⟨_, Digits.numeral_valid .even b isPositional, htext, ?_⟩
    rw [Digits.numeral_negative, Digits.isMarked_numeral, Digits.value_numeral, summary]

theorem summary_injective : Function.Injective summary := by
  intro m n h
  cases m <;> cases n <;> simp only [summary, Prod.mk.injEq, Nat.cast_inj, Bool.false_eq_true,
    Bool.true_eq_false, false_and, and_false, true_and] at h
  · exact congrArg natural (Fin.ext h)
  · exact congrArg negative (Fin.ext (Nat.succ.inj h))
  · next b c =>
    obtain ⟨mantissa, exponent⟩ := Digits.magnitude_of_shortest h.2
    obtain ⟨sign, bits, power, canonical⟩ := b
    obtain ⟨sign', bits', power', canonical'⟩ := c
    obtain ⟨rfl, -⟩ := h
    subst mantissa exponent
    rfl

/-- Different numbers have different texts, also if they differ only in kind or in the sign of
zero. -/
theorem text_injective : Function.Injective text := by
  intro m n h
  obtain ⟨p, hp, hm, hsummary⟩ := m.exists_numeral
  obtain ⟨q, hq, hn, hsummary'⟩ := n.exists_numeral
  obtain ⟨sign, marked, value⟩ := Numeral.parts_of_chars hp hq (by rw [← hm, ← hn, h])
  refine summary_injective ?_
  rw [← hsummary, ← hsummary', sign, marked, value]

end Number

end SchemaLogic
