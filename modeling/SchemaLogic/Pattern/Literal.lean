/-! # Patterns that only ask for a literal text at the start, or for the whole text -/
namespace SchemaLogic.Pattern

/-- Characters that stand for themselves without a backslash. -/
def isPlain (c : Char) : Bool := c.isDigit || c.isAlpha || c == '-' || c == '_' || c == '/'

def isEscapable (c : Char) : Bool := c == '/' || c == '-' || c == '_' || c == '$' || c == '.'

/-- A literal text, and whether nothing may follow it. -/
structure Literal where
  text : List Char
  closed : Bool
  deriving DecidableEq, Repr

def Literal.cons (c : Char) (l : Literal) : Literal := { l with text := c :: l.text }

def literalBody? : List Char → Option Literal
  | [] => some ⟨[], false⟩
  | ['$'] => some ⟨[], true⟩
  | '\\' :: c :: rest => if isEscapable c then (literalBody? rest).map (.cons c) else none
  | c :: rest => if isPlain c then (literalBody? rest).map (.cons c) else none

/-- The literal of a pattern that is anchored at the start and has no other operator than an
anchor at its end. -/
def literal? : List Char → Option Literal
  | '^' :: body => literalBody? body
  | _ => none

end SchemaLogic.Pattern
