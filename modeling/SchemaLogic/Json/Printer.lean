import SchemaLogic.Json.Basic

/-! # JSON text: compact, with members in order -/
namespace SchemaLogic

/-- Numbers keep a point after a whole number, and use powers of ten from 10 ^ 16 up and below
10 ^ -5. -/
def Json.layout : Layout := ⟨.even, fun e => decide (-5 ≤ e ∧ e < 16), true⟩

def Number.text : Number → String
  | .natural n => toString n.val
  | .negative n => "-" ++ toString (n.val + 1)
  | .real b => b.render Json.layout

namespace Json

def hexDigit (n : Nat) : Char := (Nat.toDigits 16 n).headD '0'

def escapeChar (c : Char) : List Char :=
  if c = '"' then ['\\', '"']
  else if c = '\\' then ['\\', '\\']
  else if c.toNat = 8 then ['\\', 'b']
  else if c.toNat = 9 then ['\\', 't']
  else if c.toNat = 10 then ['\\', 'n']
  else if c.toNat = 12 then ['\\', 'f']
  else if c.toNat = 13 then ['\\', 'r']
  else if c.toNat < 32 then ['\\', 'u', '0', '0', hexDigit (c.toNat / 16), hexDigit (c.toNat % 16)]
  else [c]

def quote (s : String) : String := String.ofList ('"' :: s.toList.flatMap escapeChar ++ ['"'])

mutual

def text : Json → String
  | .null => "null"
  | .bool true => "true"
  | .bool false => "false"
  | .number n => n.text
  | .string s => quote s
  | .array items => "[" ++ ",".intercalate (textItems items) ++ "]"
  | .object members => "\x7b" ++ ",".intercalate (textMembers members) ++ "\x7d"
termination_by structural json => json

def textItems : List Json → List String
  | [] => []
  | item :: rest => item.text :: textItems rest
termination_by structural items => items

def textMembers : Members → List String
  | [] => []
  | (name, value) :: rest => (quote name ++ ":" ++ value.text) :: textMembers rest
termination_by structural members => members

end

end Json

end SchemaLogic
