import SchemaLogic.Json.Printer
import SchemaLogic.Reference.Pointer

/-! # Why a schema does not compile -/
namespace SchemaLogic

inductive Expectation where
  | object
  | array
  | nonEmptyArray
  | stringArray
  | string
  | boolean
  | number
  | positiveNumber
  | limit
  | typeName
  | typeNames
  | schema
  deriving DecidableEq, Repr

def Expectation.text : Expectation → String
  | .object => "an object"
  | .array => "an array"
  | .nonEmptyArray => "a non-empty array"
  | .stringArray => "an array of strings"
  | .string => "a string"
  | .boolean => "a boolean"
  | .number => "a number"
  | .positiveNumber => "a number greater than zero"
  | .limit => "a non-negative integer"
  | .typeName => "a known type name"
  | .typeNames => "a type name or an array of type names"
  | .schema => "a schema"

inductive CompileError where
  | invalidSchema (schema : Json)
  | invalidKeyword (keyword : String) (value : Json) (expected : Expectation)
  | invalidPattern (source : String)
  | custom (keyword : String) (cause : String)
  | reference (cause : ReferenceError)
  deriving DecidableEq, Repr

def CompileError.message : CompileError → String
  | .invalidSchema schema =>
    schema.text ++ " is not a valid schema: expected an object or a boolean"
  | .invalidKeyword keyword value expected =>
    "Invalid value for `" ++ keyword ++ "`: " ++ value.text ++ " is not " ++ expected.text
  | .invalidPattern source => "`" ++ source ++ "` is not a valid regular expression"
  | .custom keyword cause => "Custom keyword `" ++ keyword ++ "` failed to compile: " ++ cause
  | .reference cause => cause.message

end SchemaLogic
