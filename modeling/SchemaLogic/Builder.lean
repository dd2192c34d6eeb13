import SchemaLogic.Pattern.Engine
import SchemaLogic.Predicate.Printer
import SchemaLogic.Reference.Resolver
import SchemaLogic.Schema.Compile

/-! # Everything that is chosen before a schema is compiled -/
namespace SchemaLogic

structure Builder where
  options : Options := {}
  table : Table := Table.draft2020
  resolver : Option Resolver := none

namespace Builder

/-- A custom keyword goes to a new pass at the end of the table. -/
def withKeyword (b : Builder) (c : CustomKeyword) : Builder :=
  { b with table := b.table.withKeyword b.table.length (.custom c) }

def prepare (b : Builder) (schema : Json) : Except CompileError Json :=
  match b.resolver with
  | none => .ok schema
  | some resolver =>
    match (resolver.inline schema).1 with
    | .ok inlined => .ok inlined
    | .error cause => .error (.reference cause)

variable [Pattern.Engines]

def build (b : Builder) (schema : Json) : Except CompileError Predicate := do
  let schema ← b.prepare schema
  compile schema b.table b.options

def inspect (b : Builder) (schema : Json) : Except CompileError String :=
  (b.build schema).map Predicate.render

end Builder

/-- The predicate of a draft 2020-12 schema with references within itself. -/
def validatorFor [Pattern.Engines] (schema : Json) : Except CompileError Predicate :=
  Builder.build { resolver := some { siblings := true } } schema

end SchemaLogic
