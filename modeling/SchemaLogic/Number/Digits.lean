import SchemaLogic.Number.Binary

/-! # The fewest decimal digits that read back as a given binary64 number, and their layout -/
namespace SchemaLogic

/-- Where a value halfway between two equally short decimals goes. -/
inductive Tie where
  | even
  | up
  deriving DecidableEq, Repr

structure Digits where
  digits : Nat
  exponent : Int
  deriving DecidableEq, Repr

namespace Digits

def aligned (decimal : Nat) (ten : Int) (binary : Nat) (two : Int) : Nat × Nat :=
  (decimal * Nat.pow 10 ten.toNat * Nat.pow 2 (-two).toNat,
    binary * Nat.pow 2 two.toNat * Nat.pow 10 (-ten).toNat)

/-- In quarters of a unit in the last place: the middle of the gap below a number. -/
def lowerMiddle (b : Binary) : Nat :=
  if b.mantissa = Nat.pow 2 52 ∧ -1074 < b.exponent then 4 * b.mantissa - 1 else 4 * b.mantissa - 2

def upperMiddle (b : Binary) : Nat := 4 * b.mantissa + 2

/-- A decimal reads back as a number iff it lies between the middles of the two gaps around it; the
middles themselves round to an even mantissa. -/
def readsBack (b : Binary) (decimal : Nat) (ten : Int) : Bool :=
  let low := aligned decimal ten (lowerMiddle b) (b.exponent - 2)
  let high := aligned decimal ten (upperMiddle b) (b.exponent - 2)
  if b.mantissa % 2 = 0 then low.2 ≤ low.1 && high.1 ≤ high.2 else low.2 < low.1 && high.1 < high.2

def leadingExponent (b : Binary) : Int :=
  let guess := Int.fdiv ((Int.ofNat b.mantissa.log2 + b.exponent) * 30103) 100000
  let reached (e : Int) : Bool :=
    let pair := aligned 1 e b.mantissa b.exponent
    pair.1 ≤ pair.2
  if reached (guess + 1) then guess + 1 else if reached guess then guess else guess - 1

/-- The two neighbours of a number on the grid of multiples of 10 ^ ten; the nearer of those that
read back is taken. -/
def onGrid? (tie : Tie) (b : Binary) (ten : Int) : Option Nat :=
  let pair := aligned 1 ten b.mantissa b.exponent
  let below := pair.2 / pair.1
  let rest := 2 * (pair.2 % pair.1)
  let nearer :=
    if rest < pair.1 then below
    else if pair.1 < rest then below + 1
    else match tie with
      | .even => if below % 2 = 0 then below else below + 1
      | .up => below + 1
  match readsBack b below ten, readsBack b (below + 1) ten with
  | true, true => some nearer
  | true, false => some below
  | false, true => some (below + 1)
  | false, false => none

def dropZeros : Nat → Digits → Digits
  | 0, d => d
  | fuel + 1, d =>
    if d.digits % 10 = 0 ∧ d.digits ≠ 0 then dropZeros fuel ⟨d.digits / 10, d.exponent + 1⟩ else d

/-- The shortest decimal that reads back: the first of the grids with 1, 2, ..., 17 digits that
has a point close enough. -/
def shortest (tie : Tie) (b : Binary) : Digits :=
  if b.mantissa = 0 then ⟨0, 0⟩
  else
    let leading := leadingExponent b
    let found := (List.range 17).findSome? fun (n : Nat) =>
      let ten := leading - Int.ofNat n
      (onGrid? tie b ten).map fun digits => dropZeros 18 ⟨digits, ten⟩
    found.getD ⟨0, 0⟩

def zeros (n : Nat) : String := String.ofList (List.replicate n '0')

def positional (d : Digits) : String :=
  let text := toString d.digits
  let before : Int := Int.ofNat text.length + d.exponent
  if 0 ≤ d.exponent then text ++ zeros d.exponent.toNat
  else if 0 < before then
    String.ofList (text.toList.take before.toNat) ++ "."
      ++ String.ofList (text.toList.drop before.toNat)
  else "0." ++ zeros (-before).toNat ++ text

def scientific (d : Digits) : String :=
  let text := toString d.digits
  let power : Int := Int.ofNat text.length + d.exponent - 1
  let fraction := text.toList.drop 1
  String.ofList (text.toList.take 1)
    ++ (if fraction.isEmpty then "" else "." ++ String.ofList fraction)
    ++ "e" ++ (if power < 0 then "-" else "+") ++ toString power.natAbs

end Digits

structure Layout where
  tie : Tie
  isPositional : Int → Bool
  wholePoint : Bool

def Binary.render (layout : Layout) (b : Binary) : String :=
  let d := Digits.shortest layout.tie b
  let power : Int := Int.ofNat (toString d.digits).length + d.exponent - 1
  let body :=
    if layout.isPositional power then
      Digits.positional d ++ (if layout.wholePoint && decide (0 ≤ d.exponent) then ".0" else "")
    else Digits.scientific d
  (if b.negative then "-" else "") ++ body

end SchemaLogic
