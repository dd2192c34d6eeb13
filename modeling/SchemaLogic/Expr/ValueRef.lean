import SchemaLogic.Json.Printer

/-! # References to the value under test: paths from the input or from a loop variable -/
namespace SchemaLogic

inductive SlotKind where
  | item
  | key
  deriving DecidableEq, Repr

/-- A loop variable, bound to the items of an array or to the keys of entries. -/
structure Slot where
  kind : SlotKind
  index : Nat
  deriving DecidableEq, Repr

def Slot.render (s : Slot) : String :=
  match s.kind with
  | .item => "v" ++ toString s.index
  | .key => "k" ++ toString s.index

inductive ValueRef where
  | input
  | slot (s : Slot)
  | property (base : ValueRef) (name : String)
  | index (base : ValueRef) (i : Nat)
  | member (base : ValueRef) (key : Slot)
  deriving DecidableEq, Repr

namespace ValueRef

def isIdentifierStart (c : Char) : Bool := c.isAlpha || c == '_' || c == '$'

def isIdentifier (name : String) : Bool :=
  match name.toList with
  | [] => false
  | c :: rest => isIdentifierStart c && rest.all fun c => isIdentifierStart c || c.isDigit

/-- Names that are identifiers follow a dot, other names and all indices stand in brackets. -/
def render : ValueRef → String
  | .input => "x"
  | .slot s => s.render
  | .property base name =>
    if isIdentifier name then base.render ++ "." ++ name
    else base.render ++ "[" ++ Json.quote name ++ "]"
  | .index base i => base.render ++ "[" ++ toString i ++ "]"
  | .member base key => base.render ++ "[" ++ key.render ++ "]"

def describe (r : ValueRef) : String := "ValueRef(" ++ r.render ++ ")"

end ValueRef

end SchemaLogic
