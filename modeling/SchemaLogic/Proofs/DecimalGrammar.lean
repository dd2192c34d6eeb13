import SchemaLogic.Proofs.DecimalText

/-! # The texts that read as decimals

Reading cuts a text at the first letter for a power and at the first point, and looks at the pieces
one by one. It accepts the texts of numerals and nothing else, and gives what they denote. -/
namespace SchemaLogic

namespace Decimal

variable {cs : List Char}

theorem splitAt?_cases (p : Char → Bool) (cs : List Char) :
    splitAt? p cs = (cs, none) ∨
      ∃ before x after, p x = true ∧ cs = before ++ x :: after ∧
        splitAt? p cs = (before, some after) := by
  rw [splitAt?]
  cases hrest : cs.dropWhile fun c => !p c with
  | nil => exact .inl rfl
  | cons x after =>
    refine .inr ⟨cs.takeWhile fun c => !p c, x, after, ?_, ?_, rfl⟩
    · have stops := List.head?_dropWhile_not (fun c => !p c) cs
      rw [hrest] at stops
      simpa using stops
    · rw [← hrest, List.takeWhile_append_dropWhile]

theorem inRange?_eq_some_iff {i j : Int} : inRange? i = some j ↔ InRange i ∧ i = j := by
  rw [inRange?, Option.ite_none_right_eq_some, Option.some.injEq]

theorem digits_checked {α : Type} {x : Option α} {a : α}
    (h : (if cs.isEmpty || !cs.all Char.isDigit then none else x) = some a) :
    (∀ c ∈ cs, c.isDigit = true) ∧ cs ≠ [] ∧ x = some a := by
  rw [Option.ite_none_left_eq_some] at h
  obtain ⟨checked, hx⟩ := h
  simp only [Bool.or_eq_true, List.isEmpty_iff, Bool.not_eq_true', not_or, Bool.not_eq_false,
    List.all_eq_true] at checked
  exact ⟨checked.2, checked.1, hx⟩

theorem exists_power {mark : Char} (hmark : mark = 'e' ∨ mark = 'E') {e : Int}
    (h : parseExponent? cs = some e) :
    ∃ p : Power, p.Valid ∧ mark :: cs = p.chars ∧ p.value = e := by
  have read (sign : Option Char) (hsign : ∀ c ∈ sign, c = '+' ∨ c = '-') (ds : List Char)
      (hds : (if ds.isEmpty || !ds.all Char.isDigit then none
        else inRange? ((if sign = some '-' then -1 else 1) * ofDigits ds)) = some e) :
      ∃ p : Power, p.Valid ∧ mark :: (sign.toList ++ ds) = p.chars ∧ p.value = e := by
    obtain ⟨digits, written, ranged⟩ := digits_checked hds
    obtain ⟨range, rfl⟩ := inRange?_eq_some_iff.mp ranged
    exact ⟨⟨mark, sign, ds⟩, ⟨hmark, hsign, digits, written, range⟩, rfl, rfl⟩
  rw [parseExponent?.eq_def] at h
  split at h
  · exact read (some '-') (by simp) _ h
  · exact read (some '+') (by simp) _ h
  · exact read none (by simp) _ h

theorem exists_power_of_split {e : Int}
    (h : parsePower? (splitAt? (fun c => c == 'e' || c == 'E') cs).2 = some e) :
    ∃ p : Option Power, (∀ q ∈ p, q.Valid) ∧ p.elim 0 Power.value = e ∧
      cs = (splitAt? (fun c => c == 'e' || c == 'E') cs).1 ++ p.elim [] Power.chars := by
  rcases splitAt?_cases (fun c => c == 'e' || c == 'E') cs with
    absent | ⟨before, mark, after, hmark, htext, present⟩
  · rw [absent] at h ⊢
    cases h
    exact ⟨none, by simp, rfl, (List.append_nil cs).symm⟩
  · rw [present] at h ⊢
    obtain ⟨p, valid, chars, value⟩ := exists_power (by simpa using hmark) h
    refine ⟨some p, by simpa using valid, value, htext.trans ?_⟩
    rw [chars]
    rfl

theorem eq_split_point (cs : List Char) :
    cs = (splitAt? (· == '.') cs).1 ++ (splitAt? (· == '.') cs).2.elim [] ('.' :: ·) := by
  rcases splitAt?_cases (· == '.') cs with absent | ⟨before, point, after, hpoint, htext, present⟩
  · rw [absent]
    exact (List.append_nil cs).symm
  · rw [present]
    exact eq_of_beq hpoint ▸ htext

/-- What reads as a decimal after the sign is what a numeral has there. -/
theorem exists_numeral_of_unsigned (negative : Bool) {d : Decimal}
    (h : parseUnsigned? cs = some d) :
    ∃ n : Numeral, n.Valid ∧ n.negative = negative ∧
      cs = n.significand ++ n.power.elim [] Power.chars ∧ n.decimal = d := by
  obtain ⟨e, hpower, hsignificand⟩ := Option.bind_eq_some_iff.mp h
  obtain ⟨p, valid, rfl, htext⟩ := exists_power_of_split hpower
  generalize (splitAt? (fun c => c == 'e' || c == 'E') cs).1 = significand at hsignificand htext
  obtain ⟨digits, written, ranged⟩ := digits_checked hsignificand
  obtain ⟨exponent, ranged, result⟩ := Option.bind_eq_some_iff.mp ranged
  obtain ⟨range, rfl⟩ := inRange?_eq_some_iff.mp ranged
  refine ⟨⟨negative, (splitAt? (· == '.') significand).1, (splitAt? (· == '.') significand).2, p⟩,
    ⟨digits, written, valid, range⟩, rfl, ?_, Option.some.inj result⟩
  rw [Numeral.significand, ← eq_split_point]
  exact htext

theorem parseChars?_eq_some_iff {d : Decimal} :
    parseChars? cs = some d ↔ ∃ n : Numeral, n.Valid ∧ cs = n.chars ∧ n.decimal = d := by
  constructor
  · intro h
    by_cases minus : ∃ rest, cs = '-' :: rest
    · obtain ⟨rest, rfl⟩ := minus
      rw [parseChars?_minus] at h
      obtain ⟨n, valid, hsign, rfl, decimal⟩ := exists_numeral_of_unsigned true h
      refine ⟨n, valid, ?_, decimal⟩
      rw [Numeral.chars, hsign]
      rfl
    · rw [parseChars?_unsigned (not_exists.mp minus)] at h
      obtain ⟨n, valid, hsign, rfl, decimal⟩ := exists_numeral_of_unsigned false h
      refine ⟨n, valid, ?_, decimal⟩
      rw [Numeral.chars, hsign]
      rfl
  · rintro ⟨n, valid, rfl, rfl⟩
    exact n.parseChars?_chars valid

end Decimal

/-! ## Printed decimals -/

def Power.plain (i : Int) : Power :=
  ⟨'e', if i < 0 then some '-' else none, Nat.toDigits 10 i.natAbs⟩

namespace Power

theorem value_plain (i : Int) : (plain i).value = i := by
  by_cases hi : i < 0
  · simp only [value, plain, hi, if_true, Decimal.ofDigits_toDigits]
    omega
  · simp only [value, plain, hi, if_false, reduceCtorEq, Decimal.ofDigits_toDigits]
    omega

theorem valid_plain {i : Int} (h : Decimal.InRange i) : (plain i).Valid where
  mark := .inl rfl
  sign := by
    intro c hc
    rw [plain] at hc
    split at hc
    · exact .inr (Option.mem_some.mp hc).symm
    · cases hc
  digits := isDigit_of_mem_toDigits _
  written := Nat.toDigits_ne_nil
  range := by rwa [value_plain]

theorem chars_plain (i : Int) : (plain i).chars = 'e' :: (toString i).toList := by
  have digits (n : Nat) : (Nat.repr n).toList = Nat.toDigits 10 n := by
    rw [Nat.repr, String.toList_ofList]
  rw [chars, plain]
  cases i with
  | ofNat m =>
    change _ = 'e' :: (Nat.repr m).toList
    rw [digits, if_neg (by simp)]
    rfl
  | negSucc m =>
    change _ = 'e' :: ("-" ++ Nat.repr (m + 1)).toList
    rw [String.toList_append, digits, if_pos (Int.negSucc_lt_zero m)]
    rfl

end Power

namespace Decimal

def numeral (d : Decimal) : Numeral :=
  ⟨false, Nat.toDigits 10 d.digits, none, some (.plain d.exponent)⟩

theorem toList_render (d : Decimal) : d.render.toList = d.numeral.chars := by
  have parts : d.numeral.chars = Nat.toDigits 10 d.digits ++ (Power.plain d.exponent).chars := by
    simp [Numeral.chars, Numeral.significand, numeral]
  rw [parts, Power.chars_plain, render, String.toList_append, String.toList_append,
    Nat.toString_eq_ofList_toDigits, String.toList_ofList, List.append_assoc]
  rfl

theorem decimal_numeral (d : Decimal) : d.numeral.decimal = d := by
  have digits : d.numeral.digits = Nat.toDigits 10 d.digits := List.append_nil _
  have exponent : d.numeral.exponent = d.exponent :=
    (Int.sub_zero _).trans (Power.value_plain d.exponent)
  rw [Numeral.decimal, digits, exponent, ofDigits_toDigits]

theorem valid_numeral {d : Decimal} (h : InRange d.exponent) : d.numeral.Valid where
  digits c hc := isDigit_of_mem_toDigits d.digits c (by simpa [numeral, Numeral.digits] using hc)
  written := by simp [numeral, Numeral.digits, Nat.toDigits_ne_nil]
  power p hp := by
    cases hp
    exact Power.valid_plain h
  range := by
    have exponent : d.numeral.exponent = d.exponent := congrArg Decimal.exponent d.decimal_numeral
    rwa [exponent]

/-- A text reads as a decimal if and only if it is the text of a numeral: its digits are those of
the decimal, and its power less the number of digits after the point is the exponent. So the printed
form of a decimal reads as the decimal, if the exponent is one that can be written. -/
theorem parse?_eq_some_iff_numeral :
    (∀ (text : String) (d : Decimal), parse? text = some d ↔
      ∃ n : Numeral, n.Valid ∧ text.toList = n.chars ∧
        d = ⟨Nat.ofDigitChars 10 n.digits 0, n.exponent⟩) ∧
    ∀ d : Decimal, parse? d.render = some d ↔ InRange d.exponent := by
  constructor
  · intro text d
    rw [parse?, parseChars?_eq_some_iff]
    simp only [eq_comm (a := d)]
    rfl
  · intro d
    constructor
    · intro h
      obtain ⟨n, valid, -, rfl⟩ := parseChars?_eq_some_iff.mp h
      exact valid.range
    · intro h
      exact parseChars?_eq_some_iff.mpr
        ⟨d.numeral, valid_numeral h, d.toList_render, d.decimal_numeral⟩

end Decimal

end SchemaLogic
