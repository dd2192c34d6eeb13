import SchemaLogic.Schema.Workspace

/-! # Keywords that look at a value without going into it

Its type, its identity, the size of a string, the range of a number. -/
namespace SchemaLogic

mutual

/-- Equality with a literal, unrolled along its shape. -/
def Expr.equalTo (r : ValueRef) : Json → Expr
  | .null => .hasType r .null
  | .bool b => .equals r (.bool b)
  | .number n => .equals r (.number n.toNumeric)
  | .string s => .equals r (.string s)
  | .array items =>
    .conj (.hasType r .array :: .size r .items .eq items.length :: Expr.equalToItems r 0 items)
  | .object members =>
    .conj (.hasType r .plainObject :: .size r .keys .eq members.length
      :: Expr.equalToMembers r members)
termination_by structural json => json

def Expr.equalToItems (r : ValueRef) (i : Nat) : List Json → List Expr
  | [] => []
  | item :: rest => Expr.equalTo (.index r i) item :: Expr.equalToItems r (i + 1) rest
termination_by structural items => items

def Expr.equalToMembers (r : ValueRef) : Json.Members → List Expr
  | [] => []
  | (name, value) :: rest => Expr.equalTo (.property r name) value :: Expr.equalToMembers r rest
termination_by structural members => members

end

namespace Node

def declaredTypes (value : Json) : Except CompileError TypeSet :=
  let known := fun name : Json => name.string?.bind JsonType.ofName?
  match value with
  | .string _ =>
    match known value with
    | some t => .ok (TypeSet.ofList [t])
    | none => refuse "type" value .typeName
  | .array names =>
    match names.mapM known with
    | some ts => .ok (TypeSet.ofList ts)
    | none => refuse "type" value .typeName
  | _ => refuse "type" value .typeNames

def applyType (n : Node) (s : Scope) : Compile Scope := do
  let types ← declaredTypes n.value
  return s.declare types

def applyEnum (n : Node) (s : Scope) : Compile Scope := do
  let items ← expectArray "enum" n.value
  if n.options.fastAssertions then
    let table ← Compile.addLiteral n.value
    return s.push .always (.inTable n.ref table)
  else return s.push .always (.disj (items.map (Expr.equalTo n.ref)))

def applyConst (n : Node) (s : Scope) : Compile Scope :=
  return s.push .always (Expr.equalTo n.ref n.value)

/-- A lower bound on a size; a bound of zero says nothing. -/
def applyLeast (n : Node) (keyword : String) (bucket : Bucket) (measure : Measure) (s : Scope) :
    Compile Scope := do
  let limit ← expectLimit keyword n.value
  return if 0 < limit then s.push bucket (.size n.ref measure .ge limit) else s

def applyMost (n : Node) (keyword : String) (bucket : Bucket) (measure : Measure) (s : Scope) :
    Compile Scope := do
  let limit ← expectLimit keyword n.value
  return s.push bucket (.size n.ref measure .le limit)

def stringMeasure (n : Node) : Measure :=
  if n.options.strictStringWidth then .codePoints else .codeUnits

def applyPattern [Pattern.Engines] (n : Node) (s : Scope) : Compile Scope := do
  match n.value with
  | .string source =>
    let pattern ← Compile.addPattern n.options.unicodeAwareRegex source
    return s.push .strings (.matchesPattern n.ref pattern)
  | value => throw (.invalidKeyword "pattern" value .string)

def applyBound (n : Node) (keyword : String) (op : CmpOp) (s : Scope) : Compile Scope := do
  let limit ← expectNumber keyword n.value
  return s.push .numbers (.compare n.ref op limit.toNumeric)

def applyMultipleOf (n : Node) (s : Scope) : Compile Scope := do
  let number ← expectNumber "multipleOf" n.value
  if number.toNumeric.isPositive then
    let exact := if n.options.accurateMultipleOf then Decimal.parse? number.text else none
    return s.push .numbers (.multipleOf n.ref ⟨number.toNumeric, exact⟩)
  else throw (.invalidKeyword "multipleOf" n.value .positiveNumber)

end Node

end SchemaLogic
