/-! # Finite binary64 numbers as exact values, and the rounding that produces them

A number is a sign, a mantissa and a power of two; nothing here depends on machine floats. -/
namespace SchemaLogic

/-- The mantissas and exponents of the format: 53 bits, and fewer only at the least exponent. -/
def Binary.Canonical (mantissa : Nat) (exponent : Int) : Prop :=
  mantissa < Nat.pow 2 53 ∧ -1074 ≤ exponent ∧ exponent ≤ 971 ∧
    (Nat.pow 2 52 ≤ mantissa ∨ exponent = -1074)

instance (mantissa : Nat) (exponent : Int) : Decidable (Binary.Canonical mantissa exponent) :=
  inferInstanceAs (Decidable (_ ∧ _ ∧ _ ∧ _))

/-- The number ± mantissa * 2 ^ exponent; zero keeps its sign. -/
structure Binary where
  negative : Bool
  mantissa : Nat
  exponent : Int
  canonical : Binary.Canonical mantissa exponent
  deriving DecidableEq, Repr

namespace Binary

def zero (negative : Bool) : Binary := ⟨negative, 0, -1074, by decide⟩

instance : Inhabited Binary := ⟨zero false⟩

def ofParts? (negative : Bool) (mantissa : Nat) (exponent : Int) : Option Binary :=
  if h : Canonical mantissa exponent then some ⟨negative, mantissa, exponent, h⟩ else none

/-- The nearest natural number to a quotient, a half going to the even neighbour. -/
def roundDiv (num den : Nat) : Nat :=
  let quotient := num / den
  let remainder := num % den
  if den < 2 * remainder ∨ (2 * remainder = den ∧ quotient % 2 = 1) then quotient + 1 else quotient

def inUnits (num den : Nat) (exponent : Int) : Nat × Nat :=
  (num * Nat.pow 2 (-exponent).toNat, den * Nat.pow 2 exponent.toNat)

/-- The power of two that gives a positive quotient 53 bits, or the least one of the format. -/
def unitExponent (num den : Nat) : Int :=
  let guess : Int := Int.ofNat num.log2 - Int.ofNat den.log2 - 52
  let scaled := inUnits num den guess
  max (-1074) (if scaled.1 / scaled.2 < Nat.pow 2 52 then guess - 1 else guess)

/-- The number nearest to num / den, or nothing when that is beyond the largest finite one. -/
def ofRatio? (negative : Bool) (num den : Nat) : Option Binary :=
  if num = 0 then some (zero negative)
  else
    let exponent := unitExponent num den
    let scaled := inUnits num den exponent
    let mantissa := roundDiv scaled.1 scaled.2
    if mantissa = Nat.pow 2 53 then ofParts? negative (Nat.pow 2 52) (exponent + 1)
    else ofParts? negative mantissa exponent

def ofInt? (i : Int) : Option Binary := ofRatio? (decide (i < 0)) i.natAbs 1

/-- The number nearest to digits * 10 ^ exponent. Quotients beyond 10 ^ 310 overflow and those
below 10 ^ -330 vanish, so the powers of ten that are formed stay small. -/
def ofDecimal? (negative : Bool) (digits : Nat) (exponent : Int) : Option Binary :=
  let size : Int := Int.ofNat (Nat.toDigits 10 digits).length + exponent
  if digits = 0 ∨ size < -330 then some (zero negative)
  else if 310 < size then none
  else ofRatio? negative (digits * Nat.pow 10 exponent.toNat) (Nat.pow 10 (-exponent).toNat)

def coefficient (b : Binary) : Int := if b.negative then -(b.mantissa : Int) else b.mantissa

def isIntegral (b : Binary) : Bool := b.mantissa % Nat.pow 2 (-b.exponent).toNat == 0

def truncate (b : Binary) : Int :=
  b.coefficient * Int.pow 2 b.exponent.toNat / Int.pow 2 (-b.exponent).toNat

end Binary

end SchemaLogic
