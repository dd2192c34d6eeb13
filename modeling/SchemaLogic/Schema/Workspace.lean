import SchemaLogic.Predicate.Pool
import SchemaLogic.Schema.Error
import SchemaLogic.Schema.Keyword
import SchemaLogic.Schema.Scope

/-! # What the keywords of one schema share while it is compiled -/
namespace SchemaLogic

/-- The declarations so far, and the number of loop variables handed out. -/
structure Workspace where
  pool : Pool := {}
  slots : Nat := 0

abbrev Compile := StateT Workspace (Except CompileError)

namespace Compile

def newSlot (kind : SlotKind) : Compile Slot := fun w =>
  .ok (⟨kind, w.slots⟩, { w with slots := w.slots + 1 })

def addLiteral (json : Json) : Compile Name := fun w =>
  let (name, pool) := w.pool.addLiteral json
  .ok (name, { w with pool := pool })

def addPattern [Pattern.Engines] (unicode : Bool) (source : String) : Compile Name := fun w =>
  match w.pool.addPattern? unicode source with
  | some (name, pool) => .ok (name, { w with pool := pool })
  | none => .error (.invalidPattern source)

def addRoutine (r : Routine) : Compile Name := fun w =>
  let (name, pool) := w.pool.addRoutine r
  .ok (name, { w with pool := pool })

def includeBuiltin (b : Builtin) : Compile Name := fun w =>
  let (name, pool) := w.pool.includeBuiltin b
  .ok (name, { w with pool := pool })

end Compile

/-- A keyword in its place: its value, the members beside it, and the value that it is about. -/
structure Node where
  options : Options
  table : Table
  members : Json.Members
  value : Json
  ref : ValueRef

abbrev Extend := Json → ValueRef → Scope → Compile Scope

/-- The condition of a schema on a value, in a scope of its own. -/
def conditions (extend : Extend) (o : Options) (schema : Json) (r : ValueRef) : Compile Expr :=
  match schema with
  | .bool true => pure (.present r)
  | .bool false => pure (.absent r)
  | .object _ => do
    let scope ← extend schema r {}
    return scope.finalize o r
  | _ => throw (.invalidSchema schema)

namespace Node

def condition (n : Node) (extend : Extend) (schema : Json) (r : ValueRef) : Compile Expr :=
  conditions extend n.options schema r

def sibling? (n : Node) (name : String) : Option Json := n.members.lookup name

end Node

def refuse {α : Type} (keyword : String) (value : Json) (expected : Expectation) :
    Except CompileError α :=
  .error (.invalidKeyword keyword value expected)

def expectObject (keyword : String) (value : Json) : Except CompileError Json.Members :=
  match value with
  | .object members => .ok members
  | _ => refuse keyword value .object

def expectArray (keyword : String) (value : Json) : Except CompileError (List Json) :=
  match value with
  | .array items => .ok items
  | _ => refuse keyword value .array

def expectNonEmptyArray (keyword : String) (value : Json) : Except CompileError (List Json) :=
  match value with
  | .array (item :: items) => .ok (item :: items)
  | _ => refuse keyword value .nonEmptyArray

/-- A natural number below 2 ^ 64, also when it is written as a real one. -/
def limit? : Json → Option Nat
  | .number (.natural n) => some n.val
  | .number (.real b) =>
    if 0 ≤ b.coefficient && b.isIntegral && b.truncate < Int.pow 2 64 then some b.truncate.toNat
    else none
  | _ => none

def expectLimit (keyword : String) (value : Json) : Except CompileError Nat :=
  match limit? value with
  | some n => .ok n
  | none => refuse keyword value .limit

def expectNumber (keyword : String) (value : Json) : Except CompileError Number :=
  match value with
  | .number n => .ok n
  | _ => refuse keyword value .number

def expectStrings (keyword : String) (value : Json) : Except CompileError (List String) := do
  let items ← expectArray keyword value
  match items.mapM Json.string? with
  | some names => .ok names
  | none => refuse keyword value .stringArray

end SchemaLogic
