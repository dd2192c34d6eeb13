import Mathlib.Data.List.TakeWhile
import SchemaLogic.Json.Printer
import SchemaLogic.Number.Decimal

/-! # Numerals

A numeral is a written number cut into its parts. Reading its text gives the decimal that the parts
denote, and the text of every JSON number is one of a numeral with a small power of ten. -/
namespace SchemaLogic

structure Power where
  mark : Char
  sign : Option Char
  digits : List Char

namespace Power

def chars (p : Power) : List Char := p.mark :: (p.sign.toList ++ p.digits)

def value (p : Power) : Int := (if p.sign = some '-' then -1 else 1) * Decimal.ofDigits p.digits

structure Valid (p : Power) : Prop where
  mark : p.mark = 'e' ∨ p.mark = 'E'
  sign : ∀ c ∈ p.sign, c = '+' ∨ c = '-'
  digits : ∀ c ∈ p.digits, c.isDigit = true
  written : p.digits ≠ []
  range : Decimal.InRange p.value

end Power

/-- The parts of a written number; a point may be followed by nothing. -/
structure Numeral where
  negative : Bool
  whole : List Char
  fraction : Option (List Char)
  power : Option Power

namespace Numeral

def significand (n : Numeral) : List Char := n.whole ++ (n.fraction.elim [] ('.' :: ·))

def chars (n : Numeral) : List Char :=
  (if n.negative then ['-'] else []) ++ (n.significand ++ n.power.elim [] Power.chars)

def digits (n : Numeral) : List Char := n.whole ++ n.fraction.getD []

def exponent (n : Numeral) : Int := n.power.elim 0 Power.value - (n.fraction.getD []).length

def decimal (n : Numeral) : Decimal := ⟨Decimal.ofDigits n.digits, n.exponent⟩

structure Valid (n : Numeral) : Prop where
  digits : ∀ c ∈ n.digits, c.isDigit = true
  written : n.digits ≠ []
  power : ∀ p ∈ n.power, p.Valid
  range : Decimal.InRange n.exponent

end Numeral

/-! ## Reading -/

theorem ne_of_isDigit {c d : Char} (hc : c.isDigit = true) (hd : d.isDigit = false) : c ≠ d := by
  rintro rfl
  rw [hc] at hd
  cases hd

namespace Decimal

section Split

variable {p : Char → Bool} {cs rest : List Char} {x : Char}

theorem splitAt?_absent (h : ∀ c ∈ cs, p c = false) : splitAt? p cs = (cs, none) := by
  have gone : cs.dropWhile (fun c => !p c) = [] := List.dropWhile_eq_nil_iff.mpr (by simpa using h)
  rw [splitAt?, gone]

theorem splitAt?_present (h : ∀ c ∈ cs, p c = false) (hx : p x = true) :
    splitAt? p (cs ++ x :: rest) = (cs, some rest) := by
  have left : (cs ++ x :: rest).dropWhile (fun c => !p c) = x :: rest := by
    rw [List.dropWhile_append_of_pos (by simpa using h), List.dropWhile_cons_of_neg (by simp [hx])]
  have taken : (cs ++ x :: rest).takeWhile (fun c => !p c) = cs := by
    rw [List.takeWhile_append_of_pos (by simpa using h), List.takeWhile_cons_of_neg (by simp [hx]),
      List.append_nil]
  rw [splitAt?, left, taken]

end Split

theorem inRange?_of {i : Int} (h : InRange i) : inRange? i = some i := if_pos h

theorem parseExponent?_chars {p : Power} (h : p.Valid) :
    parseExponent? (p.sign.toList ++ p.digits) = some p.value := by
  obtain ⟨mark, sign, digits⟩ := p
  obtain ⟨-, hsign, hdigits, hwritten, hrange⟩ := h
  have checked : ¬(digits.isEmpty || !digits.all Char.isDigit) = true := by
    simpa [hwritten] using hdigits
  cases sign with
  | some c =>
    rcases hsign c rfl with rfl | rfl
    · exact (if_neg checked).trans (inRange?_of hrange)
    · exact (if_neg checked).trans (inRange?_of hrange)
  | none =>
    obtain ⟨c, rest, rfl⟩ := List.exists_cons_of_ne_nil hwritten
    have hc : c.isDigit = true := hdigits c (by simp)
    have unsigned (sign : Char) (hs : sign.isDigit = false) (ds : List Char)
        (heq : c :: rest = sign :: ds) : False := ne_of_isDigit hc hs (List.cons.inj heq).1
    rw [Option.toList_none, List.nil_append, parseExponent?]
    · exact (if_neg checked).trans (inRange?_of hrange)
    · exact unsigned '-' rfl
    · exact unsigned '+' rfl

def parsePower? : Option (List Char) → Option Int
  | none => some 0
  | some text => parseExponent? text

def parseSignificand? (cs : List Char) (exponent : Int) : Option Decimal :=
  let parts := splitAt? (· == '.') cs
  let fraction := parts.2.getD []
  let digits := parts.1 ++ fraction
  if digits.isEmpty || !digits.all Char.isDigit then none
  else (inRange? (exponent - fraction.length)).bind fun exponent => some ⟨ofDigits digits, exponent⟩

def parseUnsigned? (cs : List Char) : Option Decimal :=
  let parts := splitAt? (fun c => c == 'e' || c == 'E') cs
  (parsePower? parts.2).bind (parseSignificand? parts.1)

theorem parseChars?_minus (cs : List Char) : parseChars? ('-' :: cs) = parseUnsigned? cs := by
  rcases hs : splitAt? (fun c => c == 'e' || c == 'E') cs with ⟨significand, _ | text⟩
  · simp only [parseChars?, parseUnsigned?, parsePower?, hs]
    rfl
  · simp only [parseChars?, parseUnsigned?, parsePower?, hs]
    rfl

theorem parseChars?_unsigned {cs : List Char} (h : ∀ rest, cs ≠ '-' :: rest) :
    parseChars? cs = parseUnsigned? cs := by
  rw [← parseChars?_minus, parseChars?, parseChars?.eq_2 cs h]

end Decimal

namespace Numeral

open Decimal

variable {n : Numeral}

theorem splitAt?_significand (h : n.Valid) :
    splitAt? (· == '.') n.significand = (n.whole, n.fraction) := by
  have plain : ∀ c ∈ n.whole, (c == '.') = false := by
    intro c hc
    exact beq_false_of_ne (ne_of_isDigit (h.digits c (List.mem_append_left _ hc)) rfl)
  rw [significand]
  cases n.fraction with
  | none =>
    rw [Option.elim_none, List.append_nil]
    exact splitAt?_absent plain
  | some fraction => exact splitAt?_present plain rfl

theorem splitAt?_marked (h : n.Valid) :
    splitAt? (fun c => c == 'e' || c == 'E') (n.significand ++ n.power.elim [] Power.chars) =
      (n.significand, n.power.map fun p => p.sign.toList ++ p.digits) := by
  have unmarked : ∀ c ∈ n.significand, (c == 'e' || c == 'E') = false := by
    intro c hc
    have digit (hd : c ∈ n.digits) : (c == 'e' || c == 'E') = false := by
      rw [beq_false_of_ne (ne_of_isDigit (h.digits c hd) rfl),
        beq_false_of_ne (ne_of_isDigit (h.digits c hd) rfl), Bool.or_self]
    rcases List.mem_append.mp hc with hw | hf
    · exact digit (List.mem_append_left _ hw)
    · cases hfraction : n.fraction with
      | none =>
        rw [hfraction] at hf
        cases hf
      | some fraction =>
        rw [hfraction] at hf
        rcases List.mem_cons.mp hf with rfl | hf
        · rfl
        · refine digit (List.mem_append_right _ ?_)
          rwa [hfraction]
  cases hp : n.power with
  | none =>
    rw [Option.elim_none, List.append_nil]
    exact splitAt?_absent unmarked
  | some p =>
    refine splitAt?_present unmarked ?_
    rcases (h.power p hp).mark with hm | hm <;> rw [hm] <;> rfl

theorem parseUnsigned?_significand (h : n.Valid) :
    parseUnsigned? (n.significand ++ n.power.elim [] Power.chars) = some n.decimal := by
  have checked : ¬(n.digits.isEmpty || !n.digits.all Char.isDigit) = true := by
    simpa [h.written] using h.digits
  have power : parsePower? (n.power.map fun p => p.sign.toList ++ p.digits) =
      some (n.power.elim 0 Power.value) := by
    cases hp : n.power with
    | none => rfl
    | some p => exact parseExponent?_chars (h.power p hp)
  rw [parseUnsigned?, splitAt?_marked h]
  simp only [power, Option.bind_some, parseSignificand?, splitAt?_significand h]
  refine (if_neg checked).trans ?_
  have ranged := inRange?_of h.range
  rw [exponent] at ranged
  rw [ranged]
  rfl

theorem unsigned_start (h : n.Valid) :
    ∃ c tail, n.significand ++ n.power.elim [] Power.chars = c :: tail ∧
      (c.isDigit = true ∨ c = '.') := by
  obtain ⟨negative, whole, fraction, power⟩ := n
  cases whole with
  | cons c whole => exact ⟨c, _, rfl, .inl (h.digits c (by simp [digits]))⟩
  | nil =>
    cases fraction with
    | none => exact absurd rfl h.written
    | some fraction => exact ⟨'.', _, rfl, .inr rfl⟩

theorem unsigned_ne_minus (h : n.Valid) (rest : List Char) :
    n.significand ++ n.power.elim [] Power.chars ≠ '-' :: rest := by
  obtain ⟨c, tail, heq, hc⟩ := unsigned_start h
  intro hminus
  obtain ⟨rfl, -⟩ := List.cons.inj (heq.symm.trans hminus)
  revert hc
  decide

/-- The text of a numeral reads as what its parts denote. -/
theorem parseChars?_chars (h : n.Valid) : parseChars? n.chars = some n.decimal := by
  rw [← parseUnsigned?_significand h, chars]
  split
  · exact parseChars?_minus _
  · exact parseChars?_unsigned (unsigned_ne_minus h)

end Numeral

/-! ## The digits of numbers -/

namespace Digits

theorem dropZeros_bounds (fuel : Nat) (d : Digits) :
    d.exponent ≤ (dropZeros fuel d).exponent ∧ (dropZeros fuel d).exponent ≤ d.exponent + fuel ∧
      (dropZeros fuel d).digits ≤ d.digits := by
  induction fuel generalizing d with
  | zero => simp [dropZeros]
  | succ fuel ih =>
    rw [dropZeros]
    split
    · have hrest := ih ⟨d.digits / 10, d.exponent + 1⟩
      have hdigits : d.digits / 10 ≤ d.digits := Nat.div_le_self _ _
      simp only at hrest
      omega
    · omega

theorem fdiv_guess (bits : Int) : (bits * 30103).fdiv 100000 = bits * 30103 / 100000 :=
  Int.fdiv_eq_ediv_of_nonneg _ (by decide)

theorem leadingExponent_bounds (b : Binary) :
    -330 ≤ leadingExponent b ∧ leadingExponent b ≤ 310 := by
  obtain ⟨negative, mantissa, exponent, hmantissa, hlow, hhigh, -⟩ := b
  have bits : mantissa.log2 < 53 := by
    by_cases hm : mantissa = 0
    · simp [hm]
    · exact (Nat.log2_lt hm).mpr hmantissa
  simp only [leadingExponent, Int.ofNat_eq_natCast, fdiv_guess]
  split
  · omega
  · split <;> omega

theorem onGrid?_le {tie : Tie} {b : Binary} {ten : Int} {digits : Nat}
    (h : onGrid? tie b ten = some digits) :
    digits ≤ b.mantissa * Nat.pow 2 b.exponent.toNat * Nat.pow 10 (-ten).toNat + 1 := by
  have quotient : (aligned 1 ten b.mantissa b.exponent).2 /
      (aligned 1 ten b.mantissa b.exponent).1 ≤
        b.mantissa * Nat.pow 2 b.exponent.toNat * Nat.pow 10 (-ten).toNat := Nat.div_le_self _ _
  refine Nat.le_trans ?_ (Nat.add_le_add_right quotient 1)
  cases tie <;> simp only [onGrid?] at h <;> grind

theorem length_toDigits_scaled {digits mantissa two ten : Nat} (hm : mantissa < Nat.pow 2 53)
    (h : digits ≤ mantissa * Nat.pow 2 two * Nat.pow 10 ten + 1) :
    (Nat.toDigits 10 digits).length ≤ 54 + two + ten := by
  have binary (k : Nat) : 2 ^ k ≤ 10 ^ k := Nat.pow_le_pow_left (by decide) k
  have bound : mantissa * 2 ^ two * 10 ^ ten ≤ 10 ^ (53 + two + ten) := by
    rw [Nat.pow_add, Nat.pow_add]
    exact Nat.mul_le_mul_right _
      (Nat.mul_le_mul (Nat.le_trans (Nat.le_of_lt hm) (binary 53)) (binary two))
  rw [Nat.length_toDigits_le_iff (by decide) (by omega)]
  have positive : 0 < 10 ^ (53 + two + ten) := Nat.pow_pos (by decide)
  calc digits ≤ 10 ^ (53 + two + ten) + 1 := Nat.le_trans h (Nat.add_le_add_right bound 1)
    _ < 10 ^ (53 + two + ten) * 10 := by omega
    _ = 10 ^ (54 + two + ten) := by rw [← Nat.pow_succ]; congr 1; omega

theorem shortest_bounds (tie : Tie) (b : Binary) :
    -350 ≤ (shortest tie b).exponent ∧ (shortest tie b).exponent ≤ 350 ∧
      (Nat.toDigits 10 (shortest tie b).digits).length ≤ 1400 := by
  obtain ⟨hlow, hhigh⟩ := leadingExponent_bounds b
  obtain ⟨hmantissa, -, hexponent, -⟩ := b.canonical
  have given (d : Digits) (hd : d = ⟨0, 0⟩) : -350 ≤ d.exponent ∧ d.exponent ≤ 350 ∧
      (Nat.toDigits 10 d.digits).length ≤ 1400 := by
    subst hd
    decide
  rw [shortest]
  split
  · exact given _ rfl
  · simp only
    cases hfound : (List.range 17).findSome? fun (n : Nat) =>
        (onGrid? tie b (leadingExponent b - Int.ofNat n)).map fun digits =>
          dropZeros 18 ⟨digits, leadingExponent b - Int.ofNat n⟩ with
    | none => exact given _ rfl
    | some d =>
      obtain ⟨n, hn, hd⟩ := List.exists_of_findSome?_eq_some hfound
      obtain ⟨digits, hgrid, rfl⟩ := Option.map_eq_some_iff.mp hd
      have drop := dropZeros_bounds 18 ⟨digits, leadingExponent b - Int.ofNat n⟩
      have hn : n < 17 := List.mem_range.mp hn
      have few := length_toDigits_scaled hmantissa (Nat.le_trans drop.2.2 (onGrid?_le hgrid))
      simp only [Int.ofNat_eq_natCast, Option.getD_some] at drop few ⊢
      omega

end Digits

/-! ## The texts of numbers -/

theorem isDigit_of_mem_toDigits (n : Nat) : ∀ c ∈ Nat.toDigits 10 n, c.isDigit = true :=
  fun _ => Nat.isDigit_of_mem_toDigits (by decide) (by decide)

theorem Decimal.ofDigits_toDigits (n : Nat) : ofDigits (Nat.toDigits 10 n) = n :=
  Nat.ofDigitChars_ten_toDigits

theorem Decimal.toDigits_inj {i j : Nat} (h : Nat.toDigits 10 i = Nat.toDigits 10 j) : i = j := by
  rw [← ofDigits_toDigits i, h, ofDigits_toDigits]

theorem Decimal.inRange_of_le {i : Int} (h : i.natAbs ≤ 2000) : InRange i := by
  have limit : Int.pow 2 63 = 9223372036854775808 := rfl
  rw [InRange, limit]
  omega

def Power.signed (i : Int) : Power :=
  ⟨'e', some (if i < 0 then '-' else '+'), Nat.toDigits 10 i.natAbs⟩

theorem Power.value_signed (i : Int) : (signed i).value = i := by
  by_cases hi : i < 0
  · simp only [value, signed, hi, if_true, Decimal.ofDigits_toDigits]
    omega
  · simp only [value, signed, hi, if_false, Decimal.ofDigits_toDigits]
    rw [if_neg (by decide)]
    omega

theorem Power.valid_signed {i : Int} (h : i.natAbs ≤ 2000) : (signed i).Valid where
  mark := .inl rfl
  sign := by
    rintro c hc
    cases hc
    split
    · exact .inr rfl
    · exact .inl rfl
  digits := isDigit_of_mem_toDigits _
  written := Nat.toDigits_ne_nil
  range := by
    rw [value_signed]
    exact Decimal.inRange_of_le h

namespace Digits

def numeral (negative isPositional : Bool) (d : Digits) : Numeral :=
  let text := Nat.toDigits 10 d.digits
  let before : Int := text.length + d.exponent
  if isPositional then
    if 0 ≤ d.exponent then
      ⟨negative, text ++ List.replicate d.exponent.toNat '0', some ['0'], none⟩
    else if 0 < before then
      ⟨negative, text.take before.toNat, some (text.drop before.toNat), none⟩
    else ⟨negative, ['0'], some (List.replicate (-before).toNat '0' ++ text), none⟩
  else
    ⟨negative, text.take 1, if (text.drop 1).isEmpty then none else some (text.drop 1),
      some (.signed (before - 1))⟩

theorem getD_unlessEmpty (cs : List Char) :
    (if cs.isEmpty then none else some cs).getD [] = cs := by
  split
  · next h => rw [List.isEmpty_iff.mp h]; rfl
  · rfl

/-- All digits are written, between zeros. The power of ten is that of the last digit; a whole
number is written with one more digit. -/
theorem numeral_digits (d : Digits) (negative isPositional : Bool) :
    ∃ i j : Nat, (d.numeral negative isPositional).digits =
        List.replicate i '0' ++ Nat.toDigits 10 d.digits ++ List.replicate j '0' ∧
      (d.numeral negative isPositional).exponent = d.exponent - j ∧
      (j = 0 ∨ (d.numeral negative isPositional).exponent = -1) := by
  have written : 0 < (Nat.toDigits 10 d.digits).length := Nat.length_toDigits_pos
  rw [numeral]
  split
  · split
    · refine ⟨0, d.exponent.toNat + 1, by simp [Numeral.digits, List.replicate_succ'], ?_, .inr rfl⟩
      simp [Numeral.exponent]
      omega
    · split
      · refine ⟨0, 0, by simp [Numeral.digits], ?_, .inl rfl⟩
        simp only [Numeral.exponent, Option.elim_none, Option.getD_some, List.length_drop]
        omega
      · refine ⟨(-((Nat.toDigits 10 d.digits).length + d.exponent : Int)).toNat + 1, 0, ?_, ?_,
          .inl rfl⟩
        · rw [Numeral.digits, List.replicate_succ, List.replicate_zero, List.append_nil]
          rfl
        · simp only [Numeral.exponent, Option.elim_none, Option.getD_some, List.length_append,
            List.length_replicate]
          omega
  · refine ⟨0, 0, ?_, ?_, .inl rfl⟩
    · rw [Numeral.digits, getD_unlessEmpty, List.take_append_drop, List.replicate_zero,
        List.nil_append, List.append_nil]
    · simp only [Numeral.exponent, Option.elim_some, Power.value_signed, getD_unlessEmpty,
        List.length_drop]
      omega

theorem numeral_exponent (d : Digits) (negative isPositional : Bool) :
    (d.numeral negative isPositional).exponent = -1 ∨
      (d.numeral negative isPositional).exponent = d.exponent := by
  obtain ⟨i, j, -, hexponent, whole | whole⟩ := d.numeral_digits negative isPositional
  · right
    rw [hexponent, whole]
    exact Int.sub_zero _
  · exact .inl whole

theorem numeral_valid (tie : Tie) (b : Binary) (isPositional : Bool) :
    ((shortest tie b).numeral b.negative isPositional).Valid := by
  obtain ⟨hlow, hhigh, hlength⟩ := shortest_bounds tie b
  obtain ⟨i, j, hdigits, -⟩ := numeral_digits (shortest tie b) b.negative isPositional
  refine ⟨?_, ?_, ?_, Decimal.inRange_of_le ?_⟩
  · have zero (k : Nat) : ∀ c ∈ List.replicate k '0', c.isDigit = true := by
      intro c hc
      rw [(List.mem_replicate.mp hc).2]
      rfl
    rw [hdigits]
    simp only [List.mem_append, or_imp, forall_and]
    exact ⟨⟨zero i, isDigit_of_mem_toDigits _⟩, zero j⟩
  · rw [hdigits]
    simp [Nat.toDigits_ne_nil]
  · have power : ∀ p ∈ ((shortest tie b).numeral b.negative isPositional).power,
        p = .signed ((Nat.toDigits 10 (shortest tie b).digits).length +
          (shortest tie b).exponent - 1) := by
      rw [numeral]
      split
      · split
        · simp
        · split <;> simp
      · simp
    intro p hp
    rw [power p hp]
    exact Power.valid_signed (by omega)
  · rcases numeral_exponent (shortest tie b) b.negative isPositional with h | h <;> rw [h] <;> omega

theorem numeral_negative (d : Digits) (negative isPositional : Bool) :
    (d.numeral negative isPositional).negative = negative := by
  rw [numeral]
  split
  · split
    · rfl
    · split <;> rfl
  · rfl

theorem length_toString (n : Nat) : (toString n).length = (Nat.toDigits 10 n).length := by
  rw [Nat.toString_eq_ofList_toDigits, String.length_ofList]

theorem toList_positional (d : Digits) (negative : Bool) :
    (positional d ++ if 0 ≤ d.exponent then ".0" else "").toList =
      (d.numeral negative true).significand ++
        (d.numeral negative true).power.elim [] Power.chars := by
  rw [numeral, if_pos rfl, positional]
  split
  · simp [zeros, Numeral.significand]
  · simp only [length_toString, Int.ofNat_eq_natCast]
    split
    · simp [Numeral.significand]
    · simp [zeros, Numeral.significand]

theorem toList_scientific (d : Digits) (negative : Bool) :
    (scientific d).toList = (d.numeral negative false).significand ++
      (d.numeral negative false).power.elim [] Power.chars := by
  have digits (n : Nat) : (toString n).toList = Nat.toDigits 10 n := by
    rw [Nat.toString_eq_ofList_toDigits, String.toList_ofList]
  have fraction (cs : List Char) : (if cs.isEmpty then "" else "." ++ String.ofList cs).toList =
      (if cs.isEmpty then none else some cs).elim [] ('.' :: ·) := by
    split
    · rfl
    · simp
  have power (i : Int) : "e".toList ++ ((if i < 0 then "-" else "+").toList ++
      Nat.toDigits 10 i.natAbs) = (Power.signed i).chars := by
    rw [Power.chars, Power.signed]
    split <;> rfl
  rw [numeral, if_neg (by decide), scientific]
  simp only [String.toList_append, String.toList_ofList, digits, length_toString,
    Int.ofNat_eq_natCast, fraction, List.append_assoc, power, Numeral.significand, Option.elim_some]

end Digits

def Numeral.integer (negative : Bool) (n : Nat) : Numeral :=
  ⟨negative, Nat.toDigits 10 n, none, none⟩

theorem Numeral.valid_integer (negative : Bool) (n : Nat) : (integer negative n).Valid where
  digits c hc := isDigit_of_mem_toDigits n c (by simpa [integer, digits] using hc)
  written := by simp [integer, digits, Nat.toDigits_ne_nil]
  power _ hp := by cases hp
  range := Decimal.inRange_of_le (Nat.zero_le _)

theorem Numeral.decimal_integer (negative : Bool) (n : Nat) :
    (integer negative n).decimal = ⟨n, 0⟩ := by
  simp [decimal, integer, digits, exponent, Decimal.ofDigits_toDigits]

/-- The text of a real number is a numeral of its shortest digits. -/
theorem Binary.toList_render (b : Binary) :
    ∃ isPositional, (b.render Json.layout).toList =
      ((Digits.shortest .even b).numeral b.negative isPositional).chars := by
  have sign : (if b.negative then "-" else "").toList = if b.negative then ['-'] else [] := by
    split <;> rfl
  have tie : Json.layout.tie = .even := rfl
  have point : Json.layout.wholePoint = true := rfl
  cases hp : Json.layout.isPositional (Int.ofNat (toString (Digits.shortest .even b).digits).length
      + (Digits.shortest .even b).exponent - 1) with
  | true =>
    refine ⟨true, ?_⟩
    rw [Numeral.chars, Digits.numeral_negative, ← Digits.toList_positional]
    simp only [render, tie, point, hp, if_true, String.toList_append, sign, Bool.true_and,
      decide_eq_true_eq]
  | false =>
    refine ⟨false, ?_⟩
    rw [Numeral.chars, Digits.numeral_negative, ← Digits.toList_scientific]
    simp only [render, tie, hp, Bool.false_eq_true, if_false, String.toList_append, sign]

namespace Number

variable {n : Number}

theorem parse?_text_integer {i : Int} (h : n.toNumeric.integer? = some i) :
    Decimal.parse? n.text = some ⟨i.natAbs, 0⟩ := by
  have reads (negative : Bool) (k : Nat)
      (htext : n.text.toList = (Numeral.integer negative k).chars) :
      Decimal.parse? n.text = some ⟨k, 0⟩ := by
    rw [Decimal.parse?, htext, Numeral.parseChars?_chars (Numeral.valid_integer negative k),
      Numeral.decimal_integer]
  cases n with
  | natural k =>
    cases h
    exact reads false k (by simp [text, Numeral.chars, Numeral.integer, Numeral.significand])
  | negative k =>
    cases h
    exact reads true (k + 1) (by simp [text, Numeral.chars, Numeral.integer, Numeral.significand])
  | real b => cases h

/-- The text of every number reads as a decimal with a small power of ten. -/
theorem parse?_text (n : Number) :
    ∃ a, Decimal.parse? n.text = some a ∧ a.exponent.natAbs ≤ 350 := by
  cases n with
  | natural k => exact ⟨_, parse?_text_integer rfl, Nat.zero_le _⟩
  | negative k => exact ⟨_, parse?_text_integer rfl, Nat.zero_le _⟩
  | real b =>
    obtain ⟨isPositional, htext⟩ := b.toList_render
    obtain ⟨hlow, hhigh, -⟩ := Digits.shortest_bounds .even b
    have reads := Numeral.parseChars?_chars (Digits.numeral_valid .even b isPositional)
    rw [← htext] at reads
    refine ⟨_, reads, ?_⟩
    simp only [Numeral.decimal]
    rcases Digits.numeral_exponent (Digits.shortest .even b) b.negative isPositional with h | h
    · rw [h]
      decide
    · rw [h]
      omega

end Number

end SchemaLogic
