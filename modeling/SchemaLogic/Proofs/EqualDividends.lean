import SchemaLogic.Proofs.RoundedDivision
import SchemaLogic.Proofs.ShortestDigits

/-! # Equal numbers as dividends

Through decimals equal numbers are divided alike as long as their texts denote the same. Together
with division through binary64 this decides where `multipleOf` depends on the kind of a number. -/
namespace SchemaLogic

namespace Number

variable {d m n : Number} {b c : Binary} {i : ℤ}

/-! ## Division through decimals -/

variable {a e : Decimal}

def isMultipleOfText (m d : Number) : Bool :=
  (Instance.value (.number m)).isMultipleOf ⟨d.toNumeric, Decimal.parse? d.text⟩

theorem isMultipleOfText_iff (ha : Decimal.parse? m.text = some a)
    (he : Decimal.parse? d.text = some e) :
    m.isMultipleOfText d = true ↔ Multiple a.value e.value := by
  obtain ⟨a', ha', small⟩ := m.parse?_text
  obtain ⟨e', he', small'⟩ := d.parse?_text
  obtain rfl := Option.some.inj (ha.symm.trans ha')
  obtain rfl := Option.some.inj (he.symm.trans he')
  have near : (a.exponent - e.exponent).natAbs < 2 ^ 32 := by omega
  simp only [isMultipleOfText, Instance.isMultipleOf, Instance.number?, ha, he]
  exact Decimal.isMultipleOf_iff near

theorem value_of_parse?_integer (hm : m.toNumeric.integer? = some i)
    (ha : Decimal.parse? m.text = some a) : a.value = i.natAbs := by
  obtain rfl := Option.some.inj ((parse?_text_integer hm).symm.trans ha)
  rw [Decimal.value, zpow_zero, mul_one]

theorem value_of_parse?_real (ha : Decimal.parse? (real b).text = some a) :
    a.value = (Digits.shortest .even b).value := by
  obtain ⟨a', ha', hvalue⟩ := parse?_text_real b
  obtain rfl := Option.some.inj (ha'.symm.trans ha)
  exact hvalue

def magnitude : Number → Number
  | .natural k => .natural k
  | .negative k => .natural ⟨k.val + 1, Nat.lt_of_le_of_lt k.isLt (by decide)⟩
  | .real b => .real { b with negative := false }

theorem value_magnitude (n : Number) : n.magnitude.value = |n.value| := by
  cases n with
  | natural k => exact (Nat.abs_cast k.val).symm
  | negative k =>
    rw [value, Int.cast_negSucc, abs_neg, Nat.abs_cast]
    rfl
  | real b =>
    change Binary.value { b with negative := false } = |b.value|
    rw [Binary.abs_value, Binary.value_eq]
    simp

theorem parse?_magnitude (ha : Decimal.parse? n.text = some a) :
    ∃ e, Decimal.parse? n.magnitude.text = some e ∧ e.value = a.value := by
  cases n with
  | natural k => exact ⟨a, ha, rfl⟩
  | negative k =>
    obtain ⟨e, he, -⟩ := (magnitude (negative k)).parse?_text
    refine ⟨e, he, ?_⟩
    rw [value_of_parse?_integer rfl ha, value_of_parse?_integer rfl he]
    rfl
  | real b =>
    obtain ⟨e, he, hvalue⟩ := parse?_text_real { b with negative := false }
    refine ⟨e, he, ?_⟩
    rw [hvalue, value_of_parse?_real ha]
    rfl

/-- The texts of two numbers denote the same magnitude. -/
def SameText (m n : Number) : Prop :=
  ∃ a e, Decimal.parse? m.text = some a ∧ Decimal.parse? n.text = some e ∧ a.value = e.value

theorem SameText.symm (h : SameText m n) : SameText n m := by
  obtain ⟨a, e, ha, he, same⟩ := h
  exact ⟨e, a, he, ha, same.symm⟩

theorem sameText_self (m : Number) : SameText m m := by
  obtain ⟨a, ha, -⟩ := m.parse?_text
  exact ⟨a, a, ha, ha, rfl⟩

theorem sameText_reals (h : b.value = c.value) : SameText (.real b) (.real c) := by
  obtain ⟨a, ha, hvalue⟩ := parse?_text_real b
  obtain ⟨e, he, hvalue'⟩ := parse?_text_real c
  refine ⟨a, e, ha, he, ?_⟩
  have digits : Digits.shortest .even b = Digits.shortest .even c :=
    Digits.shortest_congr .even (congrArg _ h)
  rw [hvalue, hvalue', digits]

theorem sameText_of_small (h : m.value = n.value) (hsmall : |m.value| < 2 ^ 53) :
    SameText m n := by
  refine of_equal (P := fun m n => |m.value| < 2 ^ 53 → |n.value| < 2 ^ 53 → SameText m n)
    (fun m n same hm hn => (same hn hm).symm) (fun m _ _ => sameText_self m)
    (fun b c h _ _ => sameText_reals h) (fun m i b hm hb _ hsmall => ?_) h hsmall (h ▸ hsmall)
  have magnitude : |b.value| = i.natAbs := by rw [hb, Nat.cast_natAbs, Int.cast_abs]
  have bound : ((i.natAbs : ℕ) : ℚ) < 2 ^ 53 := magnitude ▸ hsmall
  obtain ⟨e, he, hvalue⟩ := parse?_text_real b
  refine ⟨_, e, parse?_text_integer hm, he, ?_⟩
  rw [hvalue, Digits.value_shortest magnitude .even (by exact_mod_cast bound), Decimal.value,
    zpow_zero, mul_one]

theorem exists_beyond : ∃ (d : Number) (e : Decimal), 0 < d.value ∧
    Decimal.parse? d.text = some e ∧ 2 ^ 64 ≤ e.value := by
  refine ⟨.real ⟨false, Nat.pow 2 52, 12, by decide⟩, ⟨18446744073709552, 3⟩, ?_, ?_, ?_⟩
  · simp [value, Binary.value, Binary.coefficient]
  · decide +kernel
  · rw [Decimal.value]
    norm_num

/-- Texts that denote different magnitudes are told apart by one of these as the divisor, or by one
beyond them. -/
theorem sameText_of_alike (h : m.value = n.value)
    (halike : ∀ d : Number, 0 < d.value → m.isMultipleOfText d = n.isMultipleOfText d) :
    SameText m n := by
  refine of_equal (P := fun m n => (∀ d : Number, 0 < d.value →
      m.isMultipleOfText d = n.isMultipleOfText d) → SameText m n)
    (fun m n same alike => (same fun d hd => (alike d hd).symm).symm) (fun m _ => sameText_self m)
    (fun b c h _ => sameText_reals h) (fun m i b hm hb alike => ?_) h halike
  obtain ⟨a, ha, -⟩ := m.parse?_text
  obtain ⟨e, he, -⟩ := (real b).parse?_text
  have hvalue := (value_of_integer? hm).1
  by_cases hzero : i = 0
  · refine sameText_of_small (hvalue.trans hb.symm) ?_
    rw [hvalue, hzero]
    norm_num
  have integer : a.value = i.natAbs := value_of_parse?_integer hm ha
  have positive : 0 < a.value := integer ▸ Nat.cast_pos.mpr (Int.natAbs_pos.mpr hzero)
  -- As a divisor, either number is its own multiple and so has to divide the other one.
  have divides {d : Number} {t : Decimal} (hd : 0 < |d.value|)
      (ht : Decimal.parse? d.text = some t) :
      Multiple a.value t.value ↔ Multiple e.value t.value := by
    obtain ⟨t', ht', same⟩ := parse?_magnitude ht
    rw [← same, ← isMultipleOfText_iff ha ht', ← isMultipleOfText_iff he ht',
      alike d.magnitude (d.value_magnitude ▸ hd)]
  have nonzero : 0 < |m.value| := by
    rw [hvalue, abs_pos]
    exact_mod_cast hzero
  have nonzero' : 0 < |(real b).value| := by
    change 0 < |b.value|
    rwa [hb, ← hvalue]
  have nonneg (t : Decimal) : 0 ≤ t.value :=
    mul_nonneg (Nat.cast_nonneg _) (zpow_nonneg (by norm_num) _)
  refine ⟨a, e, ha, he, ?_⟩
  by_cases hread : e.value = 0
  · obtain ⟨d, t, hd, ht, beyond⟩ := exists_beyond
    have power : (0 : ℚ) < 2 ^ 64 := by norm_num
    have multiple : Multiple e.value t.value := by
      rw [hread]
      exact multiple_zero (power.trans_le beyond).ne'
    have least := ((divides (abs_pos.mpr hd.ne') ht).mpr multiple).le positive (nonneg t)
    have most : a.value < 2 ^ 64 := by
      rw [integer]
      exact_mod_cast (value_of_integer? hm).2
    exact absurd (beyond.trans least) most.not_ge
  · have low := ((divides nonzero ha).mp (multiple_self positive.ne')).le
      ((nonneg e).lt_of_ne' hread) (nonneg a)
    have high := ((divides nonzero' he).mpr (multiple_self hread)).le positive (nonneg e)
    exact le_antisymm low high

theorem isMultipleOfText_of_sameText (h : SameText m n) (d : Number) :
    m.isMultipleOfText d = n.isMultipleOfText d := by
  obtain ⟨a, e, ha, he, same⟩ := h
  obtain ⟨t, ht, -⟩ := d.parse?_text
  rw [Bool.eq_iff_iff, isMultipleOfText_iff ha ht, isMultipleOfText_iff he ht, same]

end Number

/-! ## Schemas -/

def JudgedAlike [Pattern.Engines] (o : Options) (table : Table) (d m n : Number) : Prop :=
  ∃ p, compile (.object [("multipleOf", .number d)]) table o = .ok p ∧
    p.isValid (.number m) = p.isValid (.number n)

section Schemas

variable [Pattern.Engines] {o : Options} {table : Table} {d m n : Number} (hs : table.Standard)
  (hk : table.Knows "multipleOf" .multipleOf) (hd : 0 < d.value)
include hs hk hd

theorem judgedAlike_iff :
    JudgedAlike o table d m n ↔
      (Instance.value (.number m)).isMultipleOf
          ⟨d.toNumeric, if o.accurateMultipleOf then Decimal.parse? d.text else none⟩ =
        (Instance.value (.number n)).isMultipleOf
          ⟨d.toNumeric, if o.accurateMultipleOf then Decimal.parse? d.text else none⟩ := by
  obtain ⟨p, hp, verdicts⟩ := compile_divisor (o := o) hs hk hd
  rw [← verdicts, ← verdicts]
  constructor
  · rintro ⟨q, hq, alike⟩
    rwa [Except.ok.inj (hp.symm.trans hq)]
  · exact fun alike => ⟨p, hp, alike⟩

theorem judgedAlike_exactly (ho : o.accurateMultipleOf = true) :
    JudgedAlike o table d m n ↔ m.isMultipleOfText d = n.isMultipleOfText d := by
  rw [judgedAlike_iff hs hk hd, ho]
  rfl

theorem judgedAlike_rounded (ho : o.accurateMultipleOf = false) :
    JudgedAlike o table d m n ↔
      m.toNumeric.isMultipleOf d.toNumeric = n.toNumeric.isMultipleOf d.toNumeric := by
  rw [judgedAlike_iff hs hk hd, ho]
  rfl

theorem judgedAlike_small (h : m.value = n.value) (hsmall : |m.value| < 2 ^ 53) :
    JudgedAlike o table d m n := by
  cases ho : o.accurateMultipleOf with
  | true =>
    rw [judgedAlike_exactly hs hk hd ho]
    exact Number.isMultipleOfText_of_sameText (Number.sameText_of_small h hsmall) d
  | false =>
    rw [judgedAlike_rounded hs hk hd ho]
    obtain ⟨c, hc, -⟩ := d.binary?_exact
    refine Number.of_equal (P := fun m n => |m.value| < 2 ^ 53 → |n.value| < 2 ^ 53 →
        m.toNumeric.isMultipleOf d.toNumeric = n.toNumeric.isMultipleOf d.toNumeric)
      (fun m n alike hm hn => (alike hn hm).symm) (fun _ _ _ => rfl)
      (fun b c hbc _ _ => Number.isMultipleOf_reals d hbc) (fun m i b hm hb hsmall _ => ?_) h hsmall
      (h ▸ hsmall)
    rw [(Number.value_of_integer? hm).1, ← Int.cast_abs, ← Nat.cast_natAbs] at hsmall
    exact Number.isMultipleOf_small hm hb hd hc (by exact_mod_cast hsmall)

end Schemas

/-- Through binary64, a divisor judges all equal numbers alike exactly if rounding keeps it or takes
it to 2 ^ 64. Through decimals, two equal numbers are judged alike by all divisors exactly if their
texts denote the same magnitude. Either way, equal numbers below 2 ^ 53 are judged alike by every
divisor. -/
theorem multipleOf_of_equal [Pattern.Engines] {table : Table} (hs : table.Standard)
    (hk : table.Knows "multipleOf" .multipleOf) (o : Options) :
    (o.accurateMultipleOf = false → ∀ d : Number, 0 < d.value →
      ((∀ m n : Number, m.equals n = true → JudgedAlike o table d m n) ↔
        ∃ b, d.toNumeric.binary? = some b ∧ (b.value = d.value ∨ b.value = 2 ^ 64))) ∧
    (o.accurateMultipleOf = true → ∀ m n : Number, m.equals n = true →
      ((∀ d : Number, 0 < d.value → JudgedAlike o table d m n) ↔
        ∃ a b, Decimal.parse? m.text = some a ∧ Decimal.parse? n.text = some b ∧
          a.value = b.value)) ∧
    ∀ d m n : Number, 0 < d.value → m.equals n = true → |m.value| < 2 ^ 53 →
      JudgedAlike o table d m n := by
  refine ⟨fun ho d hd => ?_, fun ho m n h => ?_, fun d m n hd h hsmall => ?_⟩
  · obtain ⟨c, hc, -⟩ := d.binary?_exact
    constructor
    · intro alike
      refine ⟨c, hc, Number.kept_of_alike hd hc fun m n h => ?_⟩
      exact (judgedAlike_rounded hs hk hd ho).mp (alike m n (Number.equals_iff.mpr h))
    · rintro ⟨b, hb, kept⟩ m n h
      rw [judgedAlike_rounded hs hk hd ho]
      exact Number.of_equal (P := fun m n =>
          m.toNumeric.isMultipleOf d.toNumeric = n.toNumeric.isMultipleOf d.toNumeric)
        (fun _ _ => Eq.symm) (fun _ => rfl) (fun _ _ => Number.isMultipleOf_reals d)
        (fun m i r hm hr => Number.isMultipleOf_kept hm hr hd hb kept) (Number.equals_iff.mp h)
  · constructor
    · intro alike
      exact Number.sameText_of_alike (Number.equals_iff.mp h) fun d hd =>
        (judgedAlike_exactly hs hk hd ho).mp (alike d hd)
    · intro same d hd
      exact (judgedAlike_exactly hs hk hd ho).mpr (Number.isMultipleOfText_of_sameText same d)
  · exact judgedAlike_small hs hk hd (Number.equals_iff.mp h) hsmall

/-- Six as an integer and as a real number, in both ways; and a divisor beyond 2 ^ 53 that rounding
keeps. -/
theorem six_divided_alike :
    (∃ six : Binary, (Number.natural 6).equals (.real six) = true ∧
      JudgedAlike {} .draft2020 (.natural 3) (.natural 6) (.real six) ∧
      JudgedAlike { accurateMultipleOf := true } .draft2020 (.natural 3) (.natural 6)
        (.real six)) ∧
    ∀ m n : Number, m.equals n = true →
      JudgedAlike {} .draft2020 (.natural 9007199254740994) m n := by
  have hs : Table.Standard .draft2020 := standard_of_draft (.inr rfl)
  have hk : Table.Knows .draft2020 "multipleOf" .multipleOf := hs.knows rfl rfl
  have three : 0 < (Number.natural 3).value := by
    change (0 : ℚ) < (3 : ℕ)
    norm_num
  have six : |(Number.natural 6).value| < 2 ^ 53 := by
    change |((6 : ℕ) : ℚ)| < 2 ^ 53
    norm_num
  have large : (Number.natural 9007199254740994).value = 9007199254740994 := rfl
  refine ⟨⟨⟨false, Nat.pow 2 51 * 3, -50, by decide⟩, by decide, ?_, ?_⟩, ?_⟩
  · exact (multipleOf_of_equal hs hk {}).2.2 _ _ _ three (by decide) six
  · exact (multipleOf_of_equal hs hk { accurateMultipleOf := true }).2.2 _ _ _ three (by decide) six
  · refine ((multipleOf_of_equal hs hk {}).1 rfl _ ?_).mpr
      ⟨⟨false, 4503599627370497, 1, by decide⟩, by decide, .inl ?_⟩
    · rw [large]
      norm_num
    · rw [large, Binary.value, Binary.coefficient]
      norm_num

/-- As a real number 2 ^ 53 is a multiple of its successor, since rounding makes them equal. As a
real number 2 ^ 63 is no multiple of itself as an integer, since it is written with sixteen
digits. -/
theorem equal_numbers_told_apart :
    (∃ m n : Number, m.equals n = true ∧ ∃ p,
      compile (.object [("multipleOf", .number (.natural 9007199254740993))]) .draft2020 {} =
          .ok p ∧
        p.isValid (.number m) = false ∧ p.isValid (.number n) = true) ∧
    ∃ m n : Number, m.equals n = true ∧ ∃ p,
      compile (.object [("multipleOf", .number (.natural 9223372036854775808))]) .draft2020
          { accurateMultipleOf := true } = .ok p ∧
        p.isValid (.number m) = true ∧ p.isValid (.number n) = false := by
  refine ⟨⟨.natural 9007199254740992, .real ⟨false, Nat.pow 2 52, 1, by decide⟩, by decide, _, rfl,
    ?_, ?_⟩, .natural 9223372036854775808, .real ⟨false, Nat.pow 2 52, 11, by decide⟩, by decide, _,
    rfl, ?_, ?_⟩
  all_goals decide +kernel

end SchemaLogic
