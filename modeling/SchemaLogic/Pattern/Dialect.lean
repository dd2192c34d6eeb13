import SchemaLogic.Text.Hex
import SchemaLogic.Text.Units

/-! # ECMA-262 patterns respelled in the grammar of the matchers, and the texts they run on

Without Unicode mode both sides spell a character above U+FFFF as two stand-ins, one for each
surrogate, so that one unit of text is one character of the matcher. -/
namespace SchemaLogic.Pattern

/-- The stand-in of a surrogate lies this far above it. -/
def surrogateBase : Nat := 0x100000

/-- The code points of a text, one for each code unit unless in Unicode mode. -/
def encodeChar (unicode : Bool) (c : Char) : List Nat :=
  if unicode || c.toNat ≤ 0xFFFF then [c.toNat] else (Text.unitsOf c).map (surrogateBase + ·)

def encode (unicode : Bool) (text : List Char) : List Nat := text.flatMap (encodeChar unicode)

inductive Boundary where
  | flagged
  | lookaround
  deriving DecidableEq, Repr

def Boundary.spell (boundary : Boundary) (negated : Bool) : String :=
  match boundary, negated with
  | .flagged, false => "(?-u:\\b)"
  | .flagged, true => "(?-u:\\B)"
  | .lookaround, false =>
    "(?:(?<=[0-9A-Za-z_])(?![0-9A-Za-z_])|(?<![0-9A-Za-z_])(?=[0-9A-Za-z_]))"
  | .lookaround, true =>
    "(?:(?<=[0-9A-Za-z_])(?=[0-9A-Za-z_])|(?<![0-9A-Za-z_])(?![0-9A-Za-z_]))"

def scalarEscape (n : Nat) : List Char := ['\\', 'x', '\x7b'] ++ Text.hexText n ++ ['\x7d']

def spellChar (unicode : Bool) (c : Char) : List Char :=
  if unicode || c.toNat ≤ 0xFFFF then [c]
  else (Text.unitsOf c).flatMap fun unit => scalarEscape (surrogateBase + unit)

def throughBrace (cs : List Char) : List Char × List Char :=
  match cs.dropWhile (· != '\x7d') with
  | brace :: rest => (cs.takeWhile (· != '\x7d') ++ [brace], rest)
  | [] => (cs, [])

def unit? : List Char → Option (Nat × List Char)
  | a :: b :: c :: d :: rest => (Text.hexNumber? [a, b, c, d]).map fun unit => (unit, rest)
  | _ => none

def lowSurrogate? : List Char → Option (Nat × List Char)
  | '\\' :: 'u' :: cs =>
    match unit? cs with
    | some (unit, rest) => if Text.isLowSurrogate unit then some (unit, rest) else none
    | none => none
  | _ => none

/-- A code unit escape. In Unicode mode two surrogates make one character; a surrogate that is
left alone is spelled by its stand-in. -/
def spellUnit (unicode : Bool) (unit : Nat) (rest : List Char) : List Char × List Char :=
  match unicode && Text.isHighSurrogate unit, lowSurrogate? rest with
  | true, some (low, rest) =>
    (scalarEscape (0x10000 + (unit - 0xD800) * 0x400 + (low - 0xDC00)), rest)
  | _, _ => (scalarEscape (if Text.isSurrogate unit then surrogateBase + unit else unit), rest)

def startsWithDigit (cs : List Char) : Bool := cs.head?.any Char.isDigit

def isKept (c : Char) : Bool :=
  c == 'f' || c == 'n' || c == 'r' || c == 't' || c == 'v' || c == 's' || c == 'S' || c == 'x'
    || c == 'k' || ('1' ≤ c && c ≤ '9')

def spellEscape (unicode : Bool) (boundary : Boundary) (inClass : Bool) (c : Char)
    (rest : List Char) : List Char × List Char :=
  match c with
  | 'd' => ((if inClass then "0-9" else "[0-9]").toList, rest)
  | 'D' => ((if inClass then "\\x00-/:-\\x\x7b10FFFF\x7d" else "[^0-9]").toList, rest)
  | 'w' => ((if inClass then "0-9A-Za-z_" else "[0-9A-Za-z_]").toList, rest)
  | 'W' =>
    ((if inClass then "\\x00-/:-@\\[-\\^`\\\x7b-\\x\x7b10FFFF\x7d" else "[^0-9A-Za-z_]").toList,
      rest)
  | 'b' => ((if inClass then "\\x08" else boundary.spell false).toList, rest)
  | 'B' => ((boundary.spell true).toList, rest)
  | '0' => (if startsWithDigit rest then ['0'] else "\\x00".toList, rest)
  | 'c' =>
    match rest with
    | letter :: tail =>
      if letter.isAlpha then (scalarEscape (letter.toNat % 32), tail) else (['c'], rest)
    | [] => (['c'], [])
  | 'u' =>
    match unit? rest with
    | some (unit, rest) => spellUnit unicode unit rest
    | none =>
      if unicode && rest.head? == some '\x7b' then
        let (body, rest) := throughBrace rest
        ('\\' :: 'x' :: body, rest)
      else (['u'], rest)
  | c =>
    if (c == 'p' || c == 'P') && unicode && rest.head? == some '\x7b' then
      let (body, rest) := throughBrace rest
      ('\\' :: c :: body, rest)
    else if isKept c then (['\\', c], rest)
    else if c.isAlphanum || c == '<' || c == '>' then ([c], rest)
    else if c.toNat < 0x80 then (['\\', c], rest)
    else (spellChar unicode c, rest)

def quantifierBody? (cs : List Char) : Option (List Char × List Char) :=
  let (least, rest) := cs.span Char.isDigit
  let (most, rest) := match rest with
    | ',' :: tail =>
      let (digits, rest) := tail.span Char.isDigit
      (',' :: digits, rest)
    | rest => ([], rest)
  match rest with
  | '\x7d' :: rest => if least.isEmpty then none else some (least ++ most ++ ['\x7d'], rest)
  | _ => none

/-- One construct respelled: its spelling, whether a class is open after it, and what follows. -/
structure Spelled where
  spelling : List Char
  inClass : Bool
  rest : List Char
  deriving DecidableEq, Repr

/-- An opening bracket. The empty class matches nothing, its complement everything. -/
def spellBracket (rest : List Char) : Spelled :=
  match rest with
  | ']' :: rest => ⟨"[^\\x00-\\x\x7b10FFFF\x7d]".toList, false, rest⟩
  | '^' :: ']' :: rest => ⟨"[\\x00-\\x\x7b10FFFF\x7d]".toList, false, rest⟩
  | '^' :: rest => ⟨['[', '^'], true, rest⟩
  | rest => ⟨['['], true, rest⟩

def spellNext (unicode : Bool) (boundary : Boundary) (inClass : Bool) (c : Char)
    (rest : List Char) : Spelled :=
  match c, inClass with
  | '\\', _ =>
    match rest with
    | [] => ⟨['\\'], inClass, []⟩
    | next :: tail =>
      let (spelling, rest) := spellEscape unicode boundary inClass next tail
      ⟨spelling, inClass, rest⟩
  | '[', false => spellBracket rest
  | ']', true => ⟨[']'], false, rest⟩
  | '[', true => ⟨['\\', '['], true, rest⟩
  | '&', true => ⟨['\\', '&'], true, rest⟩
  | '~', true => ⟨['\\', '~'], true, rest⟩
  | '.', false => ⟨"[^\\n\\r\\x\x7b2028\x7d\\x\x7b2029\x7d]".toList, false, rest⟩
  | '\x7b', false =>
    match quantifierBody? rest with
    | some (body, rest) => ⟨'\x7b' :: body, false, rest⟩
    | none => ⟨['\\', '\x7b'], false, rest⟩
  | '\x7d', false => ⟨['\\', '\x7d'], false, rest⟩
  | c, inClass => ⟨spellChar unicode c, inClass, rest⟩

def spellFrom (unicode : Bool) (boundary : Boundary) : Nat → Bool → List Char → List Char
  | 0, _, _ => []
  | _ + 1, _, [] => []
  | fuel + 1, inClass, c :: rest =>
    let next := spellNext unicode boundary inClass c rest
    next.spelling ++ spellFrom unicode boundary fuel next.inClass next.rest

def respell (unicode : Bool) (boundary : Boundary) (source : List Char) : List Char :=
  spellFrom unicode boundary source.length false source

end SchemaLogic.Pattern
