import SchemaLogic.Schema.Workspace

/-! # Keywords about the members of an object -/
namespace SchemaLogic.Node

def hasProperty (n : Node) (name : String) : Expr :=
  if n.options.strictPropertyCheck then .hasOwn n.ref name else .present (.property n.ref name)

def applyRequired (n : Node) (s : Scope) : Compile Scope := do
  let names ← expectStrings "required" n.value
  return s.pushAll .objects (names.map n.hasProperty)

/-- The names under `required`, as far as they are strings. -/
def requiredNames (n : Node) : List String :=
  match n.sibling? "required" with
  | some (.array names) => names.filterMap Json.string?
  | _ => []

/-- Schemas of members; one that is required elsewhere needs no test for its presence. -/
def applyEachProperty (n : Node) (extend : Extend) : Json.Members → Scope → Compile Scope
  | [], s => return s
  | (name, schema) :: rest, s => do
    let e ← n.condition extend schema (.property n.ref name)
    let e := if n.requiredNames.contains name then e else .disj [.negate (n.hasProperty name), e]
    applyEachProperty n extend rest (s.push .objects e)

def applyProperties (n : Node) (extend : Extend) (s : Scope) : Compile Scope := do
  let properties ← expectObject "properties" n.value
  n.applyEachProperty extend properties s

variable [Pattern.Engines]

def addPattern (n : Node) (source : String) : Compile Name :=
  Compile.addPattern n.options.unicodeAwareRegex source

def patternClauses (n : Node) (extend : Extend) (key : Slot) : Json.Members → Compile (List Expr)
  | [] => return []
  | (source, schema) :: rest => do
    let pattern ← n.addPattern source
    let e ← n.condition extend schema (.member n.ref key)
    let others ← patternClauses n extend key rest
    return .disj [.negate (.matchesPattern (.slot key) pattern), e] :: others

def applyPatternProperties (n : Node) (extend : Extend) (s : Scope) : Compile Scope := do
  let patterns ← expectObject "patternProperties" n.value
  let key ← Compile.newSlot .key
  let clauses ← n.patternClauses extend key patterns
  return s.push .objects (.everyKey n.ref key (.conj clauses))

def siblingMembers (n : Node) (name : String) : Json.Members :=
  match n.sibling? name with
  | some (.object members) => members
  | _ => []

def patternTests (n : Node) (key : Slot) : List String → Compile (List Expr)
  | [] => return []
  | source :: rest => do
    let pattern ← n.addPattern source
    let others ← patternTests n key rest
    return .matchesPattern (.slot key) pattern :: others

/-- A key is named by `properties`, or matched by `patternProperties`, or its member satisfies the
schema. -/
def applyAdditionalProperties (n : Node) (extend : Extend) (s : Scope) : Compile Scope := do
  let key ← Compile.newSlot .key
  let named := (n.siblingMembers "properties").map fun (name, _) =>
    Expr.equals (.slot key) (.string name)
  let matched ← n.patternTests key ((n.siblingMembers "patternProperties").map Prod.fst)
  let e ← match n.value with
    | .bool false => pure (.const false)
    | schema => n.condition extend schema (.member n.ref key)
  return s.push .objects (.everyKey n.ref key (.disj (named ++ matched ++ [e])))

def applyPropertyNames (n : Node) (extend : Extend) (s : Scope) : Compile Scope := do
  let key ← Compile.newSlot .key
  let e ← n.condition extend n.value (.slot key)
  return s.push .objects (.everyKey n.ref key e)

def dependency (n : Node) (extend : Extend) (keyword : String) (value : Json) : Compile Expr := do
  match value with
  | .array _ =>
    let names ← expectStrings keyword value
    return .conj (names.map n.hasProperty)
  | schema => n.condition extend schema n.ref

def applyDependencies (n : Node) (extend : Extend) (keyword : String)
    (check : Json → Except CompileError Unit) : Json.Members → Scope → Compile Scope
  | [], s => return s
  | (trigger, value) :: rest, s => do
    check value
    let e ← n.dependency extend keyword value
    applyDependencies n extend keyword check rest
      (s.push .objects (.disj [.negate (n.hasProperty trigger), e]))

def applyDependencyMap (n : Node) (extend : Extend) (keyword : String)
    (check : Json → Except CompileError Unit) (s : Scope) : Compile Scope := do
  let triggers ← expectObject keyword n.value
  n.applyDependencies extend keyword check triggers s

def checkNames (value : Json) : Except CompileError Unit :=
  if value.isArray then .ok () else refuse "dependentRequired" value .stringArray

def checkSchema (value : Json) : Except CompileError Unit :=
  if value.isArray then refuse "dependentSchemas" value .schema else .ok ()

end SchemaLogic.Node
