/-! # The types that a schema can declare, and sets of them -/
namespace SchemaLogic

inductive JsonType where
  | array
  | boolean
  | integer
  | null
  | number
  | object
  | string
  deriving DecidableEq, Repr

namespace JsonType

def all : List JsonType := [.array, .boolean, .integer, .null, .number, .object, .string]

def name : JsonType → String
  | .array => "array"
  | .boolean => "boolean"
  | .integer => "integer"
  | .null => "null"
  | .number => "number"
  | .object => "object"
  | .string => "string"

def ofName? (text : String) : Option JsonType := all.find? (·.name == text)

end JsonType

structure TypeSet where
  contains : JsonType → Bool

namespace TypeSet

def empty : TypeSet := ⟨fun _ => false⟩

def insert (s : TypeSet) (t : JsonType) : TypeSet := ⟨fun u => u == t || s.contains u⟩

def ofList (ts : List JsonType) : TypeSet := ts.foldl insert empty

/-- The types that both sets accept; integers are numbers. -/
def intersect (s t : TypeSet) : TypeSet :=
  ⟨fun u =>
    (s.contains u && t.contains u)
      || (u == .integer
        && ((s.contains .number && t.contains .integer)
          || (s.contains .integer && t.contains .number)))⟩

def toList (s : TypeSet) : List JsonType := JsonType.all.filter s.contains

def isEmpty (s : TypeSet) : Bool := s.toList.isEmpty

def render (s : TypeSet) : String :=
  "\x7b" ++ ", ".intercalate (s.toList.map JsonType.name) ++ "\x7d"

end TypeSet

end SchemaLogic
