import SchemaLogic.Json.Basic
import SchemaLogic.Number.Decimal
import SchemaLogic.Text.Hex

/-! # Reading JSON text -/
namespace SchemaLogic.Json

def isBlank (c : Char) : Bool := c == ' ' || c == '\n' || c == '\t' || c == '\r'

def skipBlanks (cs : List Char) : List Char := cs.dropWhile isBlank

def hexUnit? (a b c d : Char) : Option Nat := Text.hexNumber? [a, b, c, d]

def char? (n : Nat) : Option Char := if h : n.isValidChar then some (Char.ofNatAux n h) else none

def pairChar? (high low : Nat) : Option Char :=
  if 0xDC00 ≤ low ∧ low < 0xE000 then char? (0x10000 + (high - 0xD800) * 0x400 + (low - 0xDC00))
  else none

def simpleEscape? (c : Char) : Option Char :=
  match c with
  | '"' => some '"'
  | '\\' => some '\\'
  | '/' => some '/'
  | 'b' => some '\x08'
  | 'f' => some '\x0c'
  | 'n' => some '\n'
  | 'r' => some '\r'
  | 't' => some '\t'
  | _ => none

/-- The characters up to the closing quote, the ones before them given last first. A high surrogate
needs the low one that follows. -/
def parseString? (acc : List Char) : List Char → Option (String × List Char)
  | [] => none
  | '"' :: rest => some (String.ofList acc.reverse, rest)
  | '\\' :: 'u' :: a :: b :: c :: d :: rest =>
    match hexUnit? a b c d with
    | none => none
    | some unit =>
      if 0xD800 ≤ unit ∧ unit < 0xDC00 then
        match rest with
        | '\\' :: 'u' :: a :: b :: c :: d :: rest =>
          match (hexUnit? a b c d).bind (pairChar? unit) with
          | some char => parseString? (char :: acc) rest
          | none => none
        | _ => none
      else
        match char? unit with
        | some char => parseString? (char :: acc) rest
        | none => none
  | '\\' :: e :: rest =>
    match simpleEscape? e with
    | some char => parseString? (char :: acc) rest
    | none => none
  | c :: rest => if c.toNat < 32 ∨ c = '\\' then none else parseString? (c :: acc) rest

/-- The number of an integer literal: by kind if it fits, else the nearest real. -/
def integerLiteral? (negative : Bool) (n : Nat) : Option Number :=
  let real : Option Number := (Binary.ofRatio? negative n 1).map .real
  if negative then (Number.ofNeg? n).orElse fun _ => real
  else (Number.ofNat? n).orElse fun _ => real

def digitsOf (cs : List Char) : List Char × List Char :=
  (cs.takeWhile Char.isDigit, cs.dropWhile Char.isDigit)

def parsePower? (cs : List Char) : Option (Int × List Char) :=
  let (sign, cs) : Int × List Char := match cs with
    | '-' :: rest => (-1, rest)
    | '+' :: rest => (1, rest)
    | rest => (1, rest)
  let (digits, rest) := digitsOf cs
  if digits.isEmpty then none else some (sign * Decimal.ofDigits digits, rest)

def parseNumber? (cs : List Char) : Option (Number × List Char) := do
  let (negative, cs) := match cs with
    | '-' :: rest => (true, rest)
    | rest => (false, rest)
  let (whole, rest) := digitsOf cs
  if whole.isEmpty || (whole.head? == some '0' && whole.length != 1) then none
  let (fraction, rest) ← match rest with
    | '.' :: tail =>
      let (digits, rest) := digitsOf tail
      if digits.isEmpty then none else some (some digits, rest)
    | rest => some (none, rest)
  let (power, rest) ← match rest with
    | 'e' :: tail | 'E' :: tail => (parsePower? tail).map fun (power, rest) => (some power, rest)
    | rest => some (none, rest)
  if fraction.isNone && power.isNone then
    some (← integerLiteral? negative (Decimal.ofDigits whole), rest)
  else
    let fraction := fraction.getD []
    let real ← Binary.ofDecimal? negative (Decimal.ofDigits (whole ++ fraction))
      (power.getD 0 - fraction.length)
    some (.real real, rest)

mutual

def parseValue? : Nat → List Char → Option (Json × List Char)
  | 0, _ => none
  | fuel + 1, cs =>
    match skipBlanks cs with
    | 'n' :: 'u' :: 'l' :: 'l' :: rest => some (.null, rest)
    | 't' :: 'r' :: 'u' :: 'e' :: rest => some (.bool true, rest)
    | 'f' :: 'a' :: 'l' :: 's' :: 'e' :: rest => some (.bool false, rest)
    | '"' :: rest => (parseString? [] rest).map fun (s, rest) => (.string s, rest)
    | '[' :: rest =>
      match skipBlanks rest with
      | ']' :: rest => some (.array [], rest)
      | rest => parseItems? fuel [] rest
    | '\x7b' :: rest =>
      match skipBlanks rest with
      | '\x7d' :: rest => some (.object [], rest)
      | rest => parseMembers? fuel [] rest
    | rest => (parseNumber? rest).map fun (n, rest) => (.number n, rest)

def parseItems? : Nat → List Json → List Char → Option (Json × List Char)
  | 0, _, _ => none
  | fuel + 1, acc, cs =>
    match parseValue? fuel cs with
    | none => none
    | some (item, rest) =>
      match skipBlanks rest with
      | ',' :: rest => parseItems? fuel (item :: acc) rest
      | ']' :: rest => some (.array (item :: acc).reverse, rest)
      | _ => none

def parseMembers? : Nat → Members → List Char → Option (Json × List Char)
  | 0, _, _ => none
  | fuel + 1, acc, cs =>
    match skipBlanks cs with
    | '"' :: rest =>
      match parseString? [] rest with
      | none => none
      | some (name, rest) =>
        match skipBlanks rest with
        | ':' :: rest =>
          match parseValue? fuel rest with
          | none => none
          | some (value, rest) =>
            match skipBlanks rest with
            | ',' :: rest => parseMembers? fuel ((name, value) :: acc) rest
            | '\x7d' :: rest => some (ofMembers ((name, value) :: acc).reverse, rest)
            | _ => none
        | _ => none
    | _ => none

end

def parse? (text : String) : Option Json :=
  let cs := text.toList
  match parseValue? (cs.length + 1) cs with
  | some (json, rest) => if (skipBlanks rest).isEmpty then some json else none
  | none => none

end SchemaLogic.Json
