import SchemaLogic.Schema.Workspace

/-! # Keywords about the items of an array -/
namespace SchemaLogic.Node

def applyUniqueItems (n : Node) (s : Scope) : Compile Scope := do
  match n.value with
  | .bool false => return s
  | .bool true =>
    if n.options.fastAssertions then return s.push .arrays (.unique n.ref none)
    else
      let helper ← Compile.includeBuiltin .deepEqual
      return s.push .arrays (.unique n.ref (some helper))
  | value => throw (.invalidKeyword "uniqueItems" value .boolean)

/-- Schemas by position; an item is looked at only in an array that has it. -/
def applyTuple (n : Node) (extend : Extend) : Nat → List Json → Scope → Compile Scope
  | _, [], s => return s
  | i, schema :: rest, s => do
    let e ← n.condition extend schema (.index n.ref i)
    applyTuple n extend (i + 1) rest (s.push .arrays (.disj [.size n.ref .items .le i, e]))

def applyRest (n : Node) (extend : Extend) (schema : Json) (start : Nat) (s : Scope) :
    Compile Scope := do
  if 0 < start && schema = .bool false then
    return s.push .arrays (.size n.ref .items .le start)
  else
    let item ← Compile.newSlot .item
    let body ← n.condition extend schema (.slot item)
    if start = 0 then return s.push .arrays (.everyItem n.ref item body)
    else if body.isTrue then return s
    else
      let routine ← Compile.addRoutine (.everyFrom start item body)
      return s.push .arrays (.call routine n.ref)

def prefixLength (n : Node) : Nat :=
  if n.table.contains "prefixItems" then
    match n.sibling? "prefixItems" with
    | some (.array items) => items.length
    | _ => 0
  else 0

def applyItems (n : Node) (extend : Extend) (s : Scope) : Compile Scope :=
  match n.value with
  | .array schemas => n.applyTuple extend 0 schemas s
  | schema => n.applyRest extend schema n.prefixLength s

def applyPrefixItems (n : Node) (extend : Extend) (s : Scope) : Compile Scope := do
  let schemas ← expectArray "prefixItems" n.value
  n.applyTuple extend 0 schemas s

/-- Only positional `items` leave a rest. -/
def applyAdditionalItems (n : Node) (extend : Extend) (s : Scope) : Compile Scope :=
  match n.sibling? "items" with
  | some (.array schemas) => n.applyRest extend n.value schemas.length s
  | _ => return s

def containsBound (n : Node) (keyword : String) : Except CompileError (Option Nat) :=
  if n.table.contains keyword then
    match n.sibling? keyword with
    | some value => (expectLimit keyword value).map some
    | none => .ok none
  else .ok none

def applyContains (n : Node) (extend : Extend) (s : Scope) : Compile Scope := do
  let least ← n.containsBound "minContains"
  let most ← n.containsBound "maxContains"
  let item ← Compile.newSlot .item
  let body ← n.condition extend n.value (.slot item)
  if least.isNone && most.isNone then return s.push .arrays (.someItem n.ref item body)
  else if least = some 0 && most.isNone then return s
  else
    let routine ← Compile.addRoutine (.count item body (least.getD 1) most)
    return s.push .arrays (.call routine n.ref)

/-- Without `contains` a bound on matching items is one on all items. -/
def applyContainsBound (n : Node) (keyword : String) (op : CmpOp) (s : Scope) : Compile Scope := do
  let limit ← expectLimit keyword n.value
  return if (n.sibling? "contains").isSome then s else s.push .arrays (.size n.ref .items op limit)

end SchemaLogic.Node
