import SchemaLogic.Schema.Workspace

/-! # Keywords that combine schemas for one value -/
namespace SchemaLogic.Node

/-- Branches know the declared types but none of the conditions beside them. -/
def branches (n : Node) (extend : Extend) (s : Scope) : List Json → Compile (List Expr)
  | [] => return []
  | schema :: rest => do
    let branch ← extend schema n.ref s.fork
    let others ← branches n extend s rest
    return branch.finalize n.options n.ref :: others

def applyAnyOf (n : Node) (extend : Extend) (s : Scope) : Compile Scope := do
  let schemas ← expectNonEmptyArray "anyOf" n.value
  let es ← n.branches extend s schemas
  return s.push .always (.disj es)

def applyOneOf (n : Node) (extend : Extend) (s : Scope) : Compile Scope := do
  let schemas ← expectNonEmptyArray "oneOf" n.value
  let es ← n.branches extend s schemas
  return s.push .always (.one es)

/-- Members of a conjunction merge into the scope, one after another. -/
def merge (n : Node) (extend : Extend) : List Json → Scope → Compile Scope
  | [], s => return s
  | schema :: rest, s => do
    let s ← extend schema n.ref s
    merge n extend rest s

def applyAllOf (n : Node) (extend : Extend) (s : Scope) : Compile Scope := do
  let schemas ← expectNonEmptyArray "allOf" n.value
  n.merge extend schemas s

def applyNot (n : Node) (extend : Extend) (s : Scope) : Compile Scope := do
  let e ← n.condition extend n.value n.ref
  return s.push .always (.negate e)

def applyCustom (n : Node) (c : CustomKeyword) (s : Scope) : Compile Scope := do
  match c.setUp n.members n.value with
  | .ok accepts => return s.push .always (.custom n.ref ⟨c.name, accepts⟩)
  | .error cause => throw (.custom c.name cause)

end SchemaLogic.Node
