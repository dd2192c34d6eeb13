import SchemaLogic.Expr.Fold
import SchemaLogic.Schema.Options
import SchemaLogic.Schema.TypeSet

/-! # The conditions collected for one value, by the type they apply to -/
namespace SchemaLogic

inductive Bucket where
  | strings
  | numbers
  | arrays
  | objects
  | always
  deriving DecidableEq, Repr

structure Scope where
  types : Option TypeSet := none
  strings : List Expr := []
  numbers : List Expr := []
  arrays : List Expr := []
  objects : List Expr := []
  always : List Expr := []

namespace Scope

/-- A scope with the declared types and no conditions. -/
def fork (s : Scope) : Scope := { types := s.types }

/-- One more condition; what always holds is left out. -/
def push (s : Scope) (bucket : Bucket) (e : Expr) : Scope :=
  if e.isTrue then s
  else
    match bucket with
    | .strings => { s with strings := s.strings ++ [e] }
    | .numbers => { s with numbers := s.numbers ++ [e] }
    | .arrays => { s with arrays := s.arrays ++ [e] }
    | .objects => { s with objects := s.objects ++ [e] }
    | .always => { s with always := s.always ++ [e] }

def pushAll (s : Scope) (bucket : Bucket) (es : List Expr) : Scope := es.foldl (·.push bucket ·) s

/-- Types declared twice have to satisfy both declarations. -/
def declare (s : Scope) (types : TypeSet) : Scope :=
  { s with types := some (match s.types with
    | some declared => declared.intersect types
    | none => types) }

def numberCheck (o : Options) : TypeCheck := if o.noNonFiniteNumber then .finite else .number

def objectCheck (o : Options) : TypeCheck := if o.noArrayObject then .plainObject else .object

/-- Conditions that hold vacuously for values of other types. -/
def guard? (r : ValueRef) (check : TypeCheck) (conditions : List Expr) : Option Expr :=
  if conditions.isEmpty then none
  else some (.disj [.negate (.hasType r check), .conj conditions])

def guards (o : Options) (r : ValueRef) (s : Scope) : List Expr :=
  [guard? r .string s.strings, guard? r (numberCheck o) s.numbers, guard? r .array s.arrays,
   guard? r (objectCheck o) s.objects].filterMap id

def clause (r : ValueRef) (check : TypeCheck) (conditions : List Expr) : Expr :=
  .conj (.hasType r check :: conditions)

def clauses (o : Options) (r : ValueRef) (s : Scope) (declared : TypeSet) : List Expr :=
  let given := fun (t : JsonType) (e : Expr) => if declared.contains t then [e] else []
  given .string (clause r .string s.strings)
    ++ (if declared.contains .number then [clause r (numberCheck o) s.numbers]
      else given .integer (clause r .integer s.numbers))
    ++ given .array (clause r .array s.arrays)
    ++ given .object (clause r (objectCheck o) s.objects)
    ++ given .boolean (.hasType r .boolean)
    ++ given .null (.hasType r .null)

/-- The whole condition. Without declared types each group of conditions is guarded by its type,
and a scope without conditions asks for a present value; with declared types a value has to
satisfy one of their clauses. -/
def finalize (o : Options) (r : ValueRef) (s : Scope) : Expr :=
  match s.types with
  | none =>
    let guarded := guards o r s
    if guarded.isEmpty && s.always.isEmpty then .present r else .conj (guarded ++ s.always)
  | some declared => .conj (.disj (clauses o r s declared) :: s.always)

end Scope

end SchemaLogic
