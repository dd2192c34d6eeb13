import SchemaLogic.Predicate.Basic
import SchemaLogic.Schema.Assertion
import SchemaLogic.Schema.Combinator
import SchemaLogic.Schema.Items
import SchemaLogic.Schema.Properties

/-! # Compiling a schema

The keywords are applied pass by pass, and within a pass in the order of their names. -/
namespace SchemaLogic

variable [Pattern.Engines]

def Keyword.apply (k : Keyword) (extend : Extend) (n : Node) (s : Scope) : Compile Scope :=
  match k with
  | .type => n.applyType s
  | .enum => n.applyEnum s
  | .const => n.applyConst s
  | .minLength => n.applyLeast "minLength" .strings n.stringMeasure s
  | .maxLength => n.applyMost "maxLength" .strings n.stringMeasure s
  | .pattern => n.applyPattern s
  | .multipleOf => n.applyMultipleOf s
  | .minimum => n.applyBound "minimum" .ge s
  | .maximum => n.applyBound "maximum" .le s
  | .exclusiveMinimum => n.applyBound "exclusiveMinimum" .gt s
  | .exclusiveMaximum => n.applyBound "exclusiveMaximum" .lt s
  | .minItems => n.applyLeast "minItems" .arrays .items s
  | .maxItems => n.applyMost "maxItems" .arrays .items s
  | .uniqueItems => n.applyUniqueItems s
  | .items => n.applyItems extend s
  | .prefixItems => n.applyPrefixItems extend s
  | .additionalItems => n.applyAdditionalItems extend s
  | .contains => n.applyContains extend s
  | .minContains => n.applyContainsBound "minContains" .ge s
  | .maxContains => n.applyContainsBound "maxContains" .le s
  | .propertyNames => n.applyPropertyNames extend s
  | .minProperties => n.applyLeast "minProperties" .objects .keys s
  | .maxProperties => n.applyMost "maxProperties" .objects .keys s
  | .required => n.applyRequired s
  | .properties => n.applyProperties extend s
  | .patternProperties => n.applyPatternProperties extend s
  | .additionalProperties => n.applyAdditionalProperties extend s
  | .dependencies => n.applyDependencyMap extend "dependencies" (fun _ => .ok ()) s
  | .dependentRequired => n.applyDependencyMap extend "dependentRequired" Node.checkNames s
  | .dependentSchemas => n.applyDependencyMap extend "dependentSchemas" Node.checkSchema s
  | .anyOf => n.applyAnyOf extend s
  | .oneOf => n.applyOneOf extend s
  | .allOf => n.applyAllOf extend s
  | .not => n.applyNot extend s
  | .custom c => n.applyCustom c s

def applyPass (extend : Extend) (o : Options) (table : Table) (members : Json.Members)
    (r : ValueRef) (pass : Pass) : Json.Members → Scope → Compile Scope
  | [], s => return s
  | (name, value) :: rest, s => do
    let s ← match pass.get? name with
      | some k => k.apply extend ⟨o, table, members, value, r⟩ s
      | none => pure s
    applyPass extend o table members r pass rest s

def applyPasses (extend : Extend) (o : Options) (table : Table) (members : Json.Members)
    (r : ValueRef) : List Pass → Scope → Compile Scope
  | [], s => return s
  | pass :: rest, s => do
    let s ← applyPass extend o table members r pass members s
    applyPasses extend o table members r rest s

/-- Extending a scope by a schema that is nested less deep than the fuel. -/
def extendAt (o : Options) (table : Table) : Nat → Extend
  | 0, schema, _, _ => throw (.invalidSchema schema)
  | fuel + 1, schema, r, s =>
    match schema with
    | .object members => applyPasses (extendAt o table fuel) o table members r table s
    | .bool true => return s
    | .bool false => return s.push .always (.absent r)
    | _ => throw (.invalidSchema schema)

def compileAt (o : Options) (table : Table) (schema : Json) (r : ValueRef) : Compile Expr :=
  conditions (extendAt o table (schema.depth + 1)) o schema r

def compile (schema : Json) (table : Table) (o : Options) : Except CompileError Predicate :=
  match compileAt o table schema .input {} with
  | .ok (root, w) => .ok ⟨root, w.pool.declarations, w.slots⟩
  | .error e => .error e

end SchemaLogic
