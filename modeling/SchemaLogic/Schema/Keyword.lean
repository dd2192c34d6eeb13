import SchemaLogic.Json.Basic
import SchemaLogic.Text.Quoted

/-! # Keywords and the tables that say which of them apply, pass by pass -/
namespace SchemaLogic

/-- A keyword defined by the user: from the node that holds it and its value it sets up a check. -/
structure CustomKeyword where
  name : String
  setUp : Json.Members → Json → Except String (Json → Bool)

inductive Keyword where
  | type
  | enum
  | const
  | minLength
  | maxLength
  | pattern
  | multipleOf
  | minimum
  | maximum
  | exclusiveMinimum
  | exclusiveMaximum
  | minItems
  | maxItems
  | uniqueItems
  | items
  | prefixItems
  | additionalItems
  | contains
  | minContains
  | maxContains
  | propertyNames
  | minProperties
  | maxProperties
  | required
  | properties
  | patternProperties
  | additionalProperties
  | dependencies
  | dependentRequired
  | dependentSchemas
  | anyOf
  | oneOf
  | allOf
  | not
  | custom (c : CustomKeyword)

namespace Keyword

def name : Keyword → String
  | .type => "type"
  | .enum => "enum"
  | .const => "const"
  | .minLength => "minLength"
  | .maxLength => "maxLength"
  | .pattern => "pattern"
  | .multipleOf => "multipleOf"
  | .minimum => "minimum"
  | .maximum => "maximum"
  | .exclusiveMinimum => "exclusiveMinimum"
  | .exclusiveMaximum => "exclusiveMaximum"
  | .minItems => "minItems"
  | .maxItems => "maxItems"
  | .uniqueItems => "uniqueItems"
  | .items => "items"
  | .prefixItems => "prefixItems"
  | .additionalItems => "additionalItems"
  | .contains => "contains"
  | .minContains => "minContains"
  | .maxContains => "maxContains"
  | .propertyNames => "propertyNames"
  | .minProperties => "minProperties"
  | .maxProperties => "maxProperties"
  | .required => "required"
  | .properties => "properties"
  | .patternProperties => "patternProperties"
  | .additionalProperties => "additionalProperties"
  | .dependencies => "dependencies"
  | .dependentRequired => "dependentRequired"
  | .dependentSchemas => "dependentSchemas"
  | .anyOf => "anyOf"
  | .oneOf => "oneOf"
  | .allOf => "allOf"
  | .not => "not"
  | .custom c => c.name

def builtIn : List Keyword :=
  [.type, .enum, .const, .minLength, .maxLength, .pattern, .multipleOf, .minimum, .maximum,
   .exclusiveMinimum, .exclusiveMaximum, .minItems, .maxItems, .uniqueItems, .items, .prefixItems,
   .additionalItems, .contains, .minContains, .maxContains, .propertyNames, .minProperties,
   .maxProperties, .required, .properties, .patternProperties, .additionalProperties, .dependencies,
   .dependentRequired, .dependentSchemas, .anyOf, .oneOf, .allOf, .not]

def ofName? (text : String) : Option Keyword := builtIn.find? (·.name == text)

def describe : Keyword → String
  | .custom c => "Custom(CustomFactory(" ++ Text.quoted c.name ++ "))"
  | k =>
    match k.name.toList with
    | c :: rest => String.ofList (c.toUpper :: rest)
    | [] => ""

end Keyword

abbrev Pass := List (String × Keyword)

namespace Pass

def insert (pass : Pass) (k : Keyword) : Pass :=
  (k.name, k) :: pass.filter fun entry => entry.1 != k.name

def get? (pass : Pass) (name : String) : Option Keyword := pass.lookup name

end Pass

abbrev Table := List Pass

namespace Table

def empty : Table := []

/-- One more pass; within it the later of two keywords with one name counts. -/
def withPass (table : Table) (ks : List Keyword) : Table := table ++ [ks.foldl Pass.insert []]

/-- A keyword added to a pass, with empty passes before it where there are too few. -/
def withKeyword (table : Table) : Nat → Keyword → Table
  | 0, k =>
    match table with
    | [] => [Pass.insert [] k]
    | pass :: rest => pass.insert k :: rest
  | n + 1, k =>
    match table with
    | [] => [] :: withKeyword [] n k
    | pass :: rest => pass :: withKeyword rest n k

def contains (table : Table) (name : String) : Bool := table.any fun pass => (pass.get? name).isSome

def combinators : List Keyword := [.anyOf, .oneOf, .not, .allOf]

/-- The keywords of draft 6 and draft 7. -/
def draft6 : Table :=
  (empty.withPass
    [.type, .enum, .const, .minLength, .maxLength, .pattern, .multipleOf, .minimum, .maximum,
     .exclusiveMinimum, .exclusiveMaximum, .minItems, .maxItems, .uniqueItems, .items,
     .additionalItems, .contains, .propertyNames, .minProperties, .maxProperties, .required,
     .properties, .patternProperties, .additionalProperties, .dependencies]).withPass combinators

def draft2020 : Table :=
  (empty.withPass
    [.type, .enum, .const, .minLength, .maxLength, .pattern, .multipleOf, .minimum, .maximum,
     .exclusiveMinimum, .exclusiveMaximum, .minItems, .maxItems, .uniqueItems, .prefixItems, .items,
     .contains, .minContains, .maxContains, .propertyNames, .minProperties, .maxProperties,
     .required, .properties, .patternProperties, .additionalProperties, .dependentRequired,
     .dependentSchemas]).withPass combinators

end Table

end SchemaLogic
