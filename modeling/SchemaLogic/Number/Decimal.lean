/-! # Exact decimal magnitudes read from text -/
namespace SchemaLogic

/-- The magnitude digits * 10 ^ exponent. -/
structure Decimal where
  digits : Nat
  exponent : Int
  deriving DecidableEq, Repr

namespace Decimal

def render (d : Decimal) : String := toString d.digits ++ "e" ++ toString d.exponent

def ofDigits (cs : List Char) : Nat := cs.foldl (fun n c => 10 * n + (c.toNat - '0'.toNat)) 0

def InRange (i : Int) : Prop := -Int.pow 2 63 ≤ i ∧ i < Int.pow 2 63

instance (i : Int) : Decidable (InRange i) := inferInstanceAs (Decidable (_ ∧ _))

def inRange? (i : Int) : Option Int := if InRange i then some i else none

def parseExponent? (cs : List Char) : Option Int :=
  let signed (ds : List Char) (sign : Int) : Option Int :=
    if ds.isEmpty || !ds.all Char.isDigit then none else inRange? (sign * ofDigits ds)
  match cs with
  | '-' :: ds => signed ds (-1)
  | '+' :: ds => signed ds 1
  | ds => signed ds 1

def splitAt? (p : Char → Bool) (cs : List Char) : List Char × Option (List Char) :=
  match cs.dropWhile fun c => !p c with
  | [] => (cs, none)
  | _ :: rest => (cs.takeWhile fun c => !p c, some rest)

/-- Reads `-? digits . digits e exponent`; the sign is dropped, and of the two digit groups one may
be empty. -/
def parseChars? (cs : List Char) : Option Decimal := do
  let unsigned := match cs with
    | '-' :: rest => rest
    | all => all
  let (significand, power) := splitAt? (fun c => c == 'e' || c == 'E') unsigned
  let exponent ← match power with
    | none => some 0
    | some text => parseExponent? text
  let (whole, fraction) := splitAt? (· == '.') significand
  let fraction := fraction.getD []
  let digits := whole ++ fraction
  if digits.isEmpty || !digits.all Char.isDigit then none
  else
    let exponent ← inRange? (exponent - fraction.length)
    some ⟨ofDigits digits, exponent⟩

def parse? (text : String) : Option Decimal := parseChars? text.toList

/-- The digits over a smaller power of ten, as far as the difference fits 32 bits. -/
def digitsAt? (d : Decimal) (exponent : Int) : Option Nat :=
  let shift := (d.exponent - exponent).toNat
  if shift < Nat.pow 2 32 then some (d.digits * Nat.pow 10 shift) else none

def isMultipleOf (a b : Decimal) : Bool :=
  if b.digits = 0 then false
  else if a.digits = 0 then true
  else
    let exponent := min a.exponent b.exponent
    match a.digitsAt? exponent, b.digitsAt? exponent with
    | some n, some d => n % d == 0
    | _, _ => false

end Decimal

end SchemaLogic
