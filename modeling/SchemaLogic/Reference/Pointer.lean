import SchemaLogic.Json.Basic
import SchemaLogic.Number.Decimal
import SchemaLogic.Text.Hex

/-! # JSON pointers, as found after the `#` of a reference -/
namespace SchemaLogic

inductive ReferenceError where
  | unresolvable (fragment : String)
  | invalidPointer (segment : String)
  | cyclic (reference : String)
  | unretrievable (uri cause : String)
  deriving DecidableEq, Repr

def ReferenceError.message : ReferenceError → String
  | .unresolvable fragment => "Unresolvable JSON pointer: '" ++ fragment ++ "'"
  | .invalidPointer segment => "Invalid percent-encoding in JSON pointer '" ++ segment ++ "'"
  | .cyclic reference => "Reference '" ++ reference ++ "' refers to itself"
  | .unretrievable uri _ =>
    "Resource '" ++ uri ++ "' is not present in a registry and retrieving it failed"

namespace Pointer

def replaceTilde (digit char : Char) : List Char → List Char
  | '~' :: c :: rest =>
    if c = digit then char :: replaceTilde digit char rest
    else '~' :: replaceTilde digit char (c :: rest)
  | c :: rest => c :: replaceTilde digit char rest
  | [] => []

/-- `~1` stands for a slash and, after that, `~0` for a tilde. -/
def unescape (segment : List Char) : List Char :=
  replaceTilde '0' '~' (replaceTilde '1' '/' segment)

/-- Bytes with every `%XX` replaced; a percent sign without two digits stays. -/
def percentDecode : List UInt8 → List UInt8
  | 0x25 :: a :: b :: rest =>
    match Text.hexNumber? [Char.ofNat a.toNat, Char.ofNat b.toNat] with
    | some n => UInt8.ofNat n :: percentDecode rest
    | none => 0x25 :: percentDecode (a :: b :: rest)
  | byte :: rest => byte :: percentDecode rest
  | [] => []

def ofBytes? (bytes : List UInt8) : Option String :=
  String.fromUTF8? ⟨bytes.toArray⟩

def decode? (segment : List Char) : Option String :=
  let unescaped := String.ofList (unescape segment)
  if unescaped.toList.contains '%' then ofBytes? (percentDecode unescaped.toUTF8.toList)
  else some unescaped

def parseIndex? (text : List Char) : Option Nat :=
  if text.isEmpty || !text.all Char.isDigit || (text.head? == some '0' && text.length != 1) then
    none
  else
    let n := Decimal.ofDigits text
    if n < Nat.pow 2 64 then some n else none

def splitOn (separator : Char) : List Char → List (List Char)
  | [] => [[]]
  | c :: rest =>
    match splitOn separator rest with
    | [] => [[c]]
    | first :: others => if c = separator then [] :: first :: others else (c :: first) :: others

def step? (json : Json) (token : String) : Option Json :=
  match json with
  | .object members => members.lookup token
  | .array items => (parseIndex? token.toList).bind (items[·]?)
  | _ => none

/-- One segment after another; a segment is decoded before its target is looked up. -/
def walk (fragment : String) : Json → List (List Char) → Except ReferenceError Json
  | json, [] => .ok json
  | json, segment :: rest =>
    match decode? segment with
    | none => .error (.invalidPointer (String.ofList segment))
    | some token =>
      match step? json token with
      | some next => walk fragment next rest
      | none => .error (.unresolvable fragment)

def resolve (document : Json) (fragment : String) : Except ReferenceError Json :=
  match fragment.toList with
  | [] => .ok document
  | '/' :: path => walk fragment document (splitOn '/' path)
  | _ => .error (.unresolvable fragment)

end Pointer

end SchemaLogic
