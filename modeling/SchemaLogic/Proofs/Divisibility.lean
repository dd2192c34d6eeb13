import Mathlib.Algebra.Order.Field.Power
import Mathlib.Algebra.Order.Ring.Rat
import SchemaLogic.Proofs.DecimalText
import SchemaLogic.Proofs.FastAssertions
import SchemaLogic.Proofs.StructuralEquality

/-! # Exact divisibility

A decimal is a multiple of another one if it is so as a rational number. Between integers the
decimal texts lead to the same answer as the integers themselves, so that `multipleOf` is exact
either way. -/
namespace SchemaLogic

namespace Decimal

variable {a b : Decimal}

theorem value_eq_zero_iff (d : Decimal) : d.value = 0 ↔ d.digits = 0 := by
  have power : (10 : ℚ) ^ d.exponent ≠ 0 := zpow_ne_zero _ (by norm_num)
  rw [value, mul_eq_zero, or_iff_left power, Nat.cast_eq_zero]

theorem digitsAt?_eq (d : Decimal) {e : Int} (he : e ≤ d.exponent)
    (h : (d.exponent - e).natAbs < 2 ^ 32) :
    ∃ n : ℕ, d.digitsAt? e = some n ∧ d.value = n * 10 ^ e := by
  have shift : ((d.exponent - e).toNat : ℤ) = d.exponent - e := Int.toNat_of_nonneg (by omega)
  have near : (d.exponent - e).toNat < Nat.pow 2 32 := by
    change (d.exponent - e).toNat < 2 ^ 32
    omega
  refine ⟨d.digits * Nat.pow 10 (d.exponent - e).toNat, if_pos near, ?_⟩
  have power : ((Nat.pow 10 (d.exponent - e).toNat : ℕ) : ℚ) = 10 ^ (d.exponent - e) := by
    rw [← shift, zpow_natCast]
    exact Nat.cast_pow 10 _
  rw [value, Nat.cast_mul, power, mul_assoc, ← zpow_add₀ (by norm_num), sub_add_cancel]

/-- Over the smaller of two powers of ten, divisibility is that of the digits. -/
theorem isMultipleOf_iff (h : (a.exponent - b.exponent).natAbs < 2 ^ 32) :
    a.isMultipleOf b = true ↔ b.value ≠ 0 ∧ ∃ k : ℤ, a.value = k * b.value := by
  rw [isMultipleOf, Ne, value_eq_zero_iff]
  split
  · next hb => simp [hb]
  · next hb =>
    rw [and_iff_right hb]
    split
    · next ha =>
      refine iff_of_true rfl ⟨0, ?_⟩
      rw [Int.cast_zero, zero_mul, value_eq_zero_iff, ha]
    · obtain ⟨n, hn, hna⟩ := a.digitsAt?_eq (Int.min_le_left a.exponent b.exponent) (by omega)
      obtain ⟨d, hd, hdb⟩ := b.digitsAt?_eq (Int.min_le_right a.exponent b.exponent) (by omega)
      have power : (10 : ℚ) ^ min a.exponent b.exponent ≠ 0 := zpow_ne_zero _ (by norm_num)
      simp only [hn, hd]
      rw [beq_iff_eq, ← Nat.dvd_iff_mod_eq_zero, hna, hdb]
      constructor
      · rintro ⟨k, rfl⟩
        refine ⟨k, ?_⟩
        rw [Nat.cast_mul, Int.cast_natCast, mul_comm (d : ℚ), mul_assoc]
      · rintro ⟨k, hk⟩
        rw [← mul_assoc] at hk
        have whole : (n : ℤ) = d * k := by
          have cancelled := mul_right_cancel₀ power hk
          rw [mul_comm]
          exact_mod_cast cancelled
        exact Int.natCast_dvd_natCast.mp ⟨k, whole⟩

theorem isMultipleOf_natAbs (i j : Int) :
    isMultipleOf ⟨i.natAbs, 0⟩ ⟨j.natAbs, 0⟩ = true ↔ j ≠ 0 ∧ j ∣ i := by
  have value (n : ℕ) : value ⟨n, 0⟩ = n := by rw [value, zpow_zero, mul_one]
  have near : ((0 : ℤ) - 0).natAbs < 2 ^ 32 := by decide
  rw [isMultipleOf_iff near, value, value, Nat.cast_ne_zero, Int.natAbs_ne_zero,
    ← Int.natAbs_dvd_natAbs, ← Int.natCast_dvd_natCast]
  refine and_congr_right fun _ => exists_congr fun k => ?_
  have cast : ((i.natAbs : ℤ) : ℚ) = ((j.natAbs * k : ℤ) : ℚ) ↔ (i.natAbs : ℤ) = j.natAbs * k :=
    Int.cast_inj
  rw [Int.cast_mul, Int.cast_natCast, Int.cast_natCast] at cast
  rw [mul_comm, cast]

end Decimal

/-! ## Integers -/

namespace Number

theorem isPositive_iff (n : Number) : n.toNumeric.isPositive = true ↔ 0 < n.value := by
  have zero : (natural 0).value = 0 := Nat.cast_zero
  have order := n.compare?_eq (natural 0)
  rw [zero] at order
  change (n.toNumeric.compare? (natural 0).toNumeric == some .gt) = true ↔ _
  rw [order, beq_iff_eq, Option.some_inj, cmp_eq_gt_iff]

theorem integer_of_noReal {n : Number} (h : Json.noReal (.number n) = true) :
    ∃ i : ℤ, n.toNumeric.integer? = some i ∧ n.value = i := by
  cases n with
  | natural k => exact ⟨k.val, rfl, (Int.cast_natCast _).symm⟩
  | negative k => exact ⟨Int.negSucc k.val, rfl, rfl⟩
  | real b => cases h

end Number

section Integers

variable {n d : Number} (hn : Json.noReal (.number n) = true) (hd : Json.noReal (.number d) = true)
include hn hd

theorem isMultipleOf_iff_exists (hpositive : 0 < d.value) :
    (Instance.value (.number n)).isMultipleOf ⟨d.toNumeric, none⟩ = true ↔
      ∃ k : ℤ, n.value = k * d.value := by
  obtain ⟨i, hi, hni⟩ := Number.integer_of_noReal hn
  obtain ⟨j, hj, hdj⟩ := Number.integer_of_noReal hd
  have nonzero : j ≠ 0 := by
    rintro rfl
    rw [hdj] at hpositive
    exact absurd hpositive (by norm_num)
  simp only [Instance.isMultipleOf, Instance.number?, Numeric.isMultipleOf, hi, hj]
  rw [Bool.and_eq_true, bne_iff_ne, and_iff_right nonzero, beq_iff_eq, ← Int.dvd_iff_emod_eq_zero,
    hni, hdj]
  refine exists_congr fun k => ?_
  rw [← Int.cast_mul, Int.cast_inj, mul_comm]

/-- Integers are divided through their decimal texts with the same result. -/
theorem isMultipleOf_integers :
    (Instance.value (.number n)).isMultipleOf ⟨d.toNumeric, Decimal.parse? d.text⟩ =
      (Instance.value (.number n)).isMultipleOf ⟨d.toNumeric, none⟩ := by
  obtain ⟨i, hi, -⟩ := Number.integer_of_noReal hn
  obtain ⟨j, hj, -⟩ := Number.integer_of_noReal hd
  simp only [Instance.isMultipleOf, Instance.number?, Number.parse?_text_integer hi,
    Number.parse?_text_integer hj, Numeric.isMultipleOf, hi, hj]
  rw [Bool.eq_iff_iff, Decimal.isMultipleOf_natAbs, Bool.and_eq_true, bne_iff_ne, beq_iff_eq,
    Int.dvd_iff_emod_eq_zero]

end Integers

theorem compile_divisor [Pattern.Engines] {o : Options} {table : Table} (hs : table.Standard)
    (hk : table.Knows "multipleOf" .multipleOf) {d : Number} (hpositive : 0 < d.value) :
    ∃ p, compile (.object [("multipleOf", .number d)]) table o = .ok p ∧
      ∀ n : Number, p.isValid (.number n) = (Instance.value (.number n)).isMultipleOf
        ⟨d.toNumeric, if o.accurateMultipleOf then Decimal.parse? d.text else none⟩ := by
  have pushes (fuel : Nat) (s : Reading) : Keyword.multipleOf.enrich (enrichAt o table fuel)
      ⟨o, table, [("multipleOf", .number d)], .number d, .input⟩ s =
        .ok (s.pushAll .numbers [.look (·.isMultipleOf
          ⟨d.toNumeric, if o.accurateMultipleOf then Decimal.parse? d.text else none⟩)]) := by
    have demands : Node.divisorDemands ⟨o, table, [("multipleOf", .number d)], .number d, .input⟩ =
        .ok _ := if_pos (d.isPositive_iff.mpr hpositive)
    change (Node.divisorDemands _ >>= fun ms => pure (s.pushAll .numbers ms)) = _
    rw [demands]
    rfl
  obtain ⟨p, hp, hvalue, -⟩ := compile_alone (k := .multipleOf) hs hk pushes (by simp)
  refine ⟨p, hp, fun n => ?_⟩
  have covered : Bucket.numbers.covers (.number n) = true := rfl
  rw [Bool.eq_iff_iff, hvalue, List.forall_mem_singleton, forall_prop_of_true covered,
    Meaning.holds_look, Instance.ofOption_some]

theorem compile_multipleOf [Pattern.Engines] {o : Options} {table : Table} (hs : table.Standard)
    (hk : table.Knows "multipleOf" .multipleOf) {d : Number}
    (hd : Json.noReal (.number d) = true) (hpositive : 0 < d.value) :
    ∃ p, compile (.object [("multipleOf", .number d)]) table o = .ok p ∧
      ∀ n : Number, Json.noReal (.number n) = true →
        (p.isValid (.number n) = true ↔ ∃ k : ℤ, n.value = k * d.value) := by
  obtain ⟨p, hp, verdicts⟩ := compile_divisor (o := o) hs hk hpositive
  refine ⟨p, hp, fun n hn => ?_⟩
  rw [verdicts, ← isMultipleOf_iff_exists hn hd hpositive]
  split
  · rw [isMultipleOf_integers hn hd]
  · rfl

/-! ## Schemas -/

/-- Somewhere inside a schema, a keyword `multipleOf` has this value. -/
def Divides (table : Table) (schema value : Json) : Prop :=
  ∃ members name pass, Subschema table schema (.object members) ∧ (name, value) ∈ members ∧
    pass ∈ table ∧ Pass.get? pass name = some .multipleOf

def Options.accurately (o : Options) : Pairing :=
  .diagonal { o with accurateMultipleOf := true } { o with accurateMultipleOf := false } True
    fun v => v.throughout Json.noReal = true

theorem hereditary_noReal : Hereditary fun v => v.throughout Json.noReal = true where
  item h _ hi := (Json.throughout_array.mp h).2 _ hi
  member h _ hm := (Json.throughout_object.mp h).2 _ hm
  key _ _ _ _ := rfl

theorem Divides.noReal {table : Table} {schema value : Json} (h : Divides table schema value)
    (hschema : schema.throughout Json.noReal = true) : Json.noReal value = true := by
  obtain ⟨members, name, pass, hsub, hmember, -, -⟩ := h
  have inner := hereditary_noReal.subschema hschema hsub
  exact Json.throughout_self (hereditary_noReal.member inner _ hmember)

section Accurately

variable {o : Options} {n : Node}

theorem lawful_accurately : o.accurately.Lawful :=
  lawful_diagonal rfl (fun _ _ t => by cases t <;> rfl) hereditary_noReal

variable [Pattern.Engines]

theorem asserts_multipleOf (hvalue : Json.noReal n.value = true) :
    o.accurately.Asserts .multipleOf n := by
  intro f g
  refine Agree.share (expectNumber "multipleOf" n.value) fun d hd => ?_
  rw [expectNumber_ok hd] at hvalue
  by_cases hpositive : d.toNumeric.isPositive = true
  · simp only [hpositive, if_true]
    refine .ok (.singleton (.test fun i j hij => ?_))
    cases hij.1 with
    | missing _ => rfl
    | @value v _ h =>
      obtain ⟨rfl, hv⟩ := h
      cases v with
      | number m => exact isMultipleOf_integers hv hvalue
      | _ => rfl
  · simp only [hpositive]
    exact .error rfl

theorem asserts_accurately {k : Keyword} (hk : k.asserts = true)
    (hvalue : k = .multipleOf → Json.noReal n.value = true) : o.accurately.Asserts k n := by
  cases k with
  | multipleOf => exact asserts_multipleOf (hvalue rfl)
  | enum | const | minLength | maxLength | pattern | minimum | maximum | exclusiveMinimum
  | exclusiveMaximum | minItems | maxItems | uniqueItems | minContains | maxContains
  | minProperties | maxProperties | custom _ => exact fun _ _ => agree_same rfl
  | _ => cases hk

end Accurately

/-- Decimals are divided exactly, as long as their powers of ten are less than 2 ^ 32 apart, and the
texts of all numbers are read as such decimals. So an integer divides integers exactly under all
options, and schemas that divide by integers judge values without real numbers alike through
decimals and without them. -/
theorem multipleOf_exact [Pattern.Engines] :
    (∀ a b : Decimal, (a.exponent - b.exponent).natAbs < 2 ^ 32 →
      (a.isMultipleOf b = true ↔ b.value ≠ 0 ∧ ∃ k : ℤ, a.value = k * b.value)) ∧
    (∀ m n : Number, ∃ a b, Decimal.parse? m.text = some a ∧ Decimal.parse? n.text = some b ∧
      (a.exponent - b.exponent).natAbs < 2 ^ 32) ∧
    (∀ (o : Options) (table : Table) (d : Number), table.Standard →
      table.Knows "multipleOf" .multipleOf → Json.noReal (.number d) = true → 0 < d.value →
      ∃ p, compile (.object [("multipleOf", .number d)]) table o = .ok p ∧
        ∀ n : Number, Json.noReal (.number n) = true →
          (p.isValid (.number n) = true ↔ ∃ k : ℤ, n.value = k * d.value)) ∧
    ∀ (table : Table) (schema : Json) (o : Options),
      (∀ value, Divides table schema value → Json.noReal value = true) →
      (∀ e, compile schema table { o with accurateMultipleOf := true } = .error e ↔
        compile schema table { o with accurateMultipleOf := false } = .error e) ∧
      ∀ p q, compile schema table { o with accurateMultipleOf := true } = .ok p →
        compile schema table { o with accurateMultipleOf := false } = .ok q →
          ∀ v : Json, v.throughout Json.noReal = true → p.isValid v = q.isValid v := by
  refine ⟨fun a b h => Decimal.isMultipleOf_iff h, fun m n => ?_,
    fun o table d hs hk hd hpositive => compile_multipleOf hs hk hd hpositive,
    fun table schema o hd => ?_⟩
  · obtain ⟨a, ha, hsmall⟩ := m.parse?_text
    obtain ⟨b, hb, hsmall'⟩ := n.parse?_text
    exact ⟨a, b, ha, hb, by omega⟩
  · have asserts : ∀ members, Subschema table schema (.object members) →
        o.accurately.AssertsAll table members := by
      intro members hsub member hmember pass hpass k hget hk
      refine asserts_accurately hk fun he => hd member.2 ?_
      exact ⟨members, member.1, pass, hsub, hmember, hpass, he ▸ hget⟩
    obtain ⟨errors, verdicts⟩ :=
      compile_twins lawful_accurately table schema (.inl trivial) asserts
    refine ⟨errors, fun p q hp hq v hv => ?_⟩
    exact verdicts p q hp hq (some v) (some v) (.value ⟨rfl, hv⟩)

/-- Three quarters in units of five thousandths; the least integer halved; and under `items`,
multiples of three of either sign and up to the greatest integer. -/
theorem multipleOf_exact_items :
    let schema : Json := .object [("items", .object [("multipleOf", .number (.natural 3))])]
    let threes : Json := .array [.number (.negative 8), .number (.natural 18446744073709551615)]
    let other : Json := .array [.number (.negative 8), .number (.negative 9)]
    (∃ k : ℤ, Decimal.value ⟨75, -2⟩ = k * Decimal.value ⟨5, -3⟩) ∧
      (∃ p, compile (.object [("multipleOf", .number (.natural 2))]) .draft2020
          { accurateMultipleOf := true } = .ok p ∧
        p.isValid (.number (.negative 9223372036854775807)) = true) ∧
      ∃ p q, compile schema .draft6 { accurateMultipleOf := true } = .ok p ∧
        compile schema .draft6 { accurateMultipleOf := false } = .ok q ∧
        p.isValid threes = q.isValid threes ∧ q.isValid threes = true ∧
        p.isValid other = q.isValid other ∧ q.isValid other = false := by
  intro schema threes other
  obtain ⟨decimals, -, alone, schemas⟩ := multipleOf_exact
  refine ⟨?_, ?_, ?_⟩
  · have near : ((-2 : ℤ) - -3).natAbs < 2 ^ 32 := by decide
    exact ((decimals ⟨75, -2⟩ ⟨5, -3⟩ near).mp (by decide)).2
  · have hs : Table.Standard .draft2020 := standard_of_draft (.inr rfl)
    have two : (Number.natural 2).value = 2 := rfl
    have least : (Number.negative 9223372036854775807).value = -9223372036854775808 := rfl
    obtain ⟨p, hp, verdicts⟩ := alone { accurateMultipleOf := true } .draft2020 (.natural 2) hs
      (hs.knows rfl rfl) rfl (by rw [two]; norm_num)
    refine ⟨p, hp, (verdicts _ rfl).mpr ⟨-4611686018427387904, ?_⟩⟩
    rw [two, least]
    norm_num
  · have h : compile schema .draft6 { accurateMultipleOf := true } = .ok _ := rfl
    have h' : compile schema .draft6 { accurateMultipleOf := false } = .ok _ := rfl
    have verdicts := (schemas .draft6 schema {} fun value hd => hd.noReal (by decide)).2 _ _ h h'
    exact ⟨_, _, h, h', verdicts threes (by decide), by decide, verdicts other (by decide),
      by decide⟩

end SchemaLogic
