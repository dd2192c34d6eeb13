import SchemaLogic.Expr.ValueRef
import SchemaLogic.Number.Decimal

/-! # Conditions on a value

Patterns, tables, routines and helpers are named by their place in a pool of declarations. -/
namespace SchemaLogic

inductive TypeCheck where
  | string
  | number
  | finite
  | integer
  | array
  | object
  | plainObject
  | boolean
  | null
  deriving DecidableEq, Repr

inductive Measure where
  | codeUnits
  | codePoints
  | items
  | keys
  deriving DecidableEq, Repr

inductive CmpOp where
  | lt
  | le
  | gt
  | ge
  | eq
  deriving DecidableEq, Repr

def CmpOp.holds : CmpOp → Ordering → Bool
  | .lt, o => o == .lt
  | .le, o => o != .gt
  | .gt, o => o == .gt
  | .ge, o => o != .lt
  | .eq, o => o == .eq

/-- The divisor of a divisibility test; with an exact value the test is done in decimals. -/
structure Divisor where
  value : Numeric
  exact : Option Decimal
  deriving DecidableEq, Repr

inductive Scalar where
  | bool (b : Bool)
  | number (n : Numeric)
  | string (s : String)
  deriving DecidableEq, Repr

/-- The check that a custom keyword has set up. -/
structure CustomCheck where
  keyword : String
  accepts : Json → Bool

abbrev Name := Nat

def Name.render (n : Name) : String := "f" ++ toString n

inductive Expr where
  | const (b : Bool)
  | present (r : ValueRef)
  | absent (r : ValueRef)
  | hasOwn (r : ValueRef) (name : String)
  | hasType (r : ValueRef) (check : TypeCheck)
  | not (e : Expr)
  | all (es : List Expr)
  | any (es : List Expr)
  | exactlyOne (es : List Expr)
  | size (r : ValueRef) (measure : Measure) (op : CmpOp) (limit : Nat)
  | compare (r : ValueRef) (op : CmpOp) (limit : Numeric)
  | multipleOf (r : ValueRef) (divisor : Divisor)
  | matchesPattern (r : ValueRef) (pattern : Name)
  | equals (r : ValueRef) (scalar : Scalar)
  | inTable (r : ValueRef) (table : Name)
  | unique (r : ValueRef) (helper : Option Name)
  | allItems (r : ValueRef) (item : Slot) (body : Expr)
  | anyItem (r : ValueRef) (item : Slot) (body : Expr)
  | allKeys (r : ValueRef) (key : Slot) (body : Expr)
  | call (routine : Name) (r : ValueRef)
  | custom (r : ValueRef) (check : CustomCheck)

def Expr.isTrue : Expr → Bool
  | .const true => true
  | _ => false

end SchemaLogic
