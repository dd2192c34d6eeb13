import SchemaLogic.Number.Digits

/-! # Numbers of several kinds, compared by exact value whatever their kind -/
namespace SchemaLogic

/-- A number that remembers the kind it came in. -/
inductive Numeric where
  | natural (n : Nat)
  | integer (i : Int)
  | real (b : Binary)
  | infinite (negative : Bool)
  | nan
  deriving DecidableEq, Repr

/-- The finite value coefficient * 2 ^ exponent. -/
structure Scaled where
  coefficient : Int
  exponent : Int
  deriving DecidableEq, Repr

namespace Scaled

def coefficientAt (s : Scaled) (exponent : Int) : Int :=
  s.coefficient * Int.pow 2 (s.exponent - exponent).toNat

def compare (a b : Scaled) : Ordering :=
  let exponent := min a.exponent b.exponent
  Ord.compare (a.coefficientAt exponent) (b.coefficientAt exponent)

def isMultipleOf (a b : Scaled) : Bool :=
  let exponent := min a.exponent b.exponent
  b.coefficient != 0 && a.coefficientAt exponent % b.coefficientAt exponent == 0

end Scaled

namespace Numeric

/-- Numbers print positionally, without a point after a whole number. -/
def layout : Layout := ⟨.up, fun _ => true, false⟩

def render : Numeric → String
  | .natural n => toString n
  | .integer i => toString i
  | .real b => b.render layout
  | .infinite false => "inf"
  | .infinite true => "-inf"
  | .nan => "NaN"

def scaled? : Numeric → Option Scaled
  | .natural n => some ⟨n, 0⟩
  | .integer i => some ⟨i, 0⟩
  | .real b => some ⟨b.coefficient, b.exponent⟩
  | .infinite _ => none
  | .nan => none

/-- Order by exact value; nothing compares with a number that is none. -/
def compare? (a b : Numeric) : Option Ordering :=
  match a, b with
  | .nan, _ => none
  | _, .nan => none
  | .infinite true, .infinite true => some .eq
  | .infinite true, _ => some .lt
  | .infinite false, .infinite false => some .eq
  | .infinite false, _ => some .gt
  | _, .infinite negative => some (if negative then .gt else .lt)
  | a, b =>
    match a.scaled?, b.scaled? with
    | some u, some v => some (u.compare v)
    | _, _ => none

def equals (a b : Numeric) : Bool := a.compare? b == some .eq

def isPositive (a : Numeric) : Bool := a.compare? (.natural 0) == some .gt

def integer? : Numeric → Option Int
  | .natural n => some n
  | .integer i => some i
  | _ => none

def binary? : Numeric → Option Binary
  | .natural n => Binary.ofInt? n
  | .integer i => Binary.ofInt? i
  | .real b => some b
  | _ => none

/-- Two integers are divided exactly; any other pair is first rounded to binary64. -/
def isMultipleOf (a divisor : Numeric) : Bool :=
  match a.integer?, divisor.integer? with
  | some n, some d => d != 0 && n % d == 0
  | _, _ =>
    match a.binary?, divisor.binary? with
    | some n, some d => Scaled.isMultipleOf ⟨n.coefficient, n.exponent⟩ ⟨d.coefficient, d.exponent⟩
    | _, _ => false

def isInteger : Numeric → Bool
  | .natural _ => true
  | .integer _ => true
  | .real b => b.isIntegral
  | _ => false

end Numeric

end SchemaLogic
