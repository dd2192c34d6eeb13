import SchemaLogic.Pattern.Regex
import SchemaLogic.Number.Decimal
import SchemaLogic.Text.Hex

/-! # What the two pattern grammars share: flags, escapes and bracketed classes -/
namespace SchemaLogic.Pattern

structure Flags where
  folded : Bool := false
  lines : Bool := false
  returns : Bool := false
  unicode : Bool := true
  spaced : Bool := false
  swapped : Bool := false
  dotAll : Bool := false
  deriving DecidableEq, Repr

namespace Flags

def set (f : Flags) (s : CharSet) : CharSet := if f.folded then .folded s else s

def literal (f : Flags) (n : Nat) : CharSet := f.set (.single n)

def range (f : Flags) (first last : Nat) : CharSet := f.set (.range first last)

def start (f : Flags) : Anchor := if f.lines then .lineStart f.returns else .textStart

def dot (f : Flags) : CharSet := if f.dotAll then .range 0 0x10FFFF else .complement (.single 10)

def stop (f : Flags) : Anchor := if f.lines then .lineEnd f.returns else .textEnd

end Flags

/-- Blanks and comments to the end of a line, which count only when spacing is free. -/
def skipSpacing (f : Flags) : List Char → List Char
  | [] => []
  | c :: cs =>
    if !f.spaced then c :: cs
    else if Text.isSpace c.toNat then skipSpacing f cs
    else if c = '#' then skipComment f cs
    else c :: cs
where
  skipComment (f : Flags) : List Char → List Char
    | [] => []
    | c :: cs => if c = '\n' then skipSpacing f cs else skipComment f cs

inductive Primitive where
  | literal (n : Nat)
  | set (s : CharSet)
  | anchor (a : Anchor)
  deriving DecidableEq, Repr

def scalar? (n : Nat) : Option Nat := if n.isValidChar then some n else none

/-- The number after `\x`: two digits, or any number of them in braces. -/
def hexEscape? : List Char → Option (Nat × List Char)
  | '\x7b' :: cs => do
    let digits := cs.takeWhile (· != '\x7d')
    let rest ← (cs.dropWhile (· != '\x7d')).tail?
    some (← scalar? (← Text.hexNumber? digits), rest)
  | a :: b :: rest => do some (← Text.hexNumber? [a, b], rest)
  | _ => none

/-- Case, blanks, hyphens and underscores of a property name do not count, nor does `is` before it,
except in the one name that would be a single letter without it. -/
def looseName (cs : List Char) : String :=
  let bare := match cs with
    | a :: b :: rest => if a.toLower = 'i' && b.toLower = 's' then rest else cs
    | _ => cs
  let isCounted := fun c : Char => c.toNat ≤ 0x7F && c != ' ' && c != '_' && c != '-'
  let name := String.ofList ((bare.filter isCounted).map Char.toLower)
  if bare.length < cs.length && name = "c" then "isc" else name

def categorySet? (name : String) : Option CharSet :=
  if name = "any" then some (.range 0 0x10FFFF)
  else if name = "ascii" then some (.range 0 0x7F)
  else if name = "assigned" then some (.complement (.category [.unassigned]))
  else (Text.Category.named.lookup name).map .category

def namedSet? (name : String) : Option CharSet :=
  if name = "whitespace" || name = "wspace" || name = "space" then some .space
  else categorySet? name

def splitBy? (separator : List Char) : List Char → Option (List Char × List Char)
  | [] => none
  | c :: cs =>
    if separator.isPrefixOf (c :: cs) then some ([], (c :: cs).drop separator.length)
    else (splitBy? separator cs).map fun (before, after) => (c :: before, after)

def valueSet? (key value : List Char) : Option CharSet :=
  let key := looseName key
  if key = "gc" || key = "generalcategory" then categorySet? (looseName value) else none

/-- The set of a property: a name, or a category given as a value. -/
def property? (cs : List Char) : Option CharSet :=
  match splitBy? ['!', '='] cs with
  | some (key, value) => (valueSet? key value).map .complement
  | none =>
    -- A colon is looked for first, so an equals sign before it belongs to the key.
    match (splitBy? [':'] cs).orElse fun _ => splitBy? ['='] cs with
    | some (key, value) => valueSet? key value
    | none => namedSet? (looseName cs)

def propertyEscape? : List Char → Option (CharSet × List Char)
  | '\x7b' :: cs => do
    let rest ← (cs.dropWhile (· != '\x7d')).tail?
    some (← property? (cs.takeWhile (· != '\x7d')), rest)
  | c :: rest => do some (← property? [c], rest)
  | [] => none

def controlEscape? (c : Char) : Option Nat :=
  match c with
  | 'a' => some 7
  | 't' => some 9
  | 'n' => some 10
  | 'v' => some 11
  | 'f' => some 12
  | 'r' => some 13
  | _ => none

/-- Digits, letters and angle brackets have no meaning of their own after a backslash; without
Unicode, what could split a character is refused. Case variants are added to a property before
its complement is taken. -/
def escape? (f : Flags) : List Char → Option (Primitive × List Char)
  | [] => none
  | 'x' :: rest => do
    let (n, tail) ← hexEscape? rest
    if !f.unicode && 0x7F < n && rest.head? != some '\x7b' then none
    some (.literal n, tail)
  | 'p' :: rest => do
    if !f.unicode then none
    let (set, tail) ← propertyEscape? rest
    some (.set (f.set set), tail)
  | 'P' :: rest => do
    if !f.unicode then none
    let (set, tail) ← propertyEscape? rest
    some (.set (.complement (f.set set)), tail)
  | 's' :: rest => some (.set (if f.unicode then .space else .inter .space (.range 0 0x7F)), rest)
  | 'S' :: rest => if f.unicode then some (.set (.complement .space), rest) else none
  | 'b' :: rest => some (.anchor .wordBoundary, rest)
  | 'B' :: rest => some (.anchor .notWordBoundary, rest)
  | 'A' :: rest => some (.anchor .textStart, rest)
  | 'z' :: rest => some (.anchor .textEnd, rest)
  | c :: rest =>
    match controlEscape? c with
    | some n => some (.literal n, rest)
    | none =>
      if c.isAlphanum || c = '<' || c = '>' || 0x7F < c.toNat then none
      else some (.literal c.toNat, rest)

inductive SetOp where
  | inter
  | diff
  | symmDiff
  deriving DecidableEq, Repr

def SetOp.apply : SetOp → CharSet → CharSet → CharSet
  | .inter, a, b => .inter a b
  | .diff, a, b => .diff a b
  | .symmDiff, a, b => .symmDiff a b

def applyPending (pending : Option (SetOp × CharSet)) (set : CharSet) : CharSet :=
  match pending with
  | some (op, left) => op.apply left set
  | none => set

def setOp? : List Char → Option (SetOp × List Char)
  | '&' :: '&' :: rest => some (.inter, rest)
  | '-' :: '-' :: rest => some (.diff, rest)
  | '~' :: '~' :: rest => some (.symmDiff, rest)
  | _ => none

def classItem? (f : Flags) : List Char → Option (Primitive × List Char)
  | [] => none
  | '\\' :: rest => escape? f rest
  | c :: rest => some (.literal c.toNat, rest)

def Primitive.set? (f : Flags) : Primitive → Option CharSet
  | .literal n => if !f.unicode && 0x7F < n then none else some (f.literal n)
  | .set s => some s
  | .anchor _ => none

/-- An item alone, or a range of two literals in order. A hyphen before the end of the class or
before another hyphen makes no range. -/
def classRange? (f : Flags) (cs : List Char) : Option (CharSet × List Char) := do
  let (first, rest) ← classItem? f cs
  let rest := skipSpacing f rest
  let alone := (first.set? f).map fun set => (set, rest)
  match rest with
  | '-' :: tail =>
    let tail := skipSpacing f tail
    match tail with
    | ']' :: _ => alone
    | '-' :: _ => alone
    | _ =>
      let (last, rest) ← classItem? f tail
      match first, last with
      | .literal a, .literal b =>
        if b < a || (!f.unicode && 0x7F < b) then none else some (f.range a b, rest)
      | _, _ => none
  | [] => none
  | _ => alone

def leadingHyphens (f : Flags) : List Char → CharSet × List Char
  | '-' :: cs =>
    let (set, rest) := leadingHyphens f cs
    (.union (f.literal 0x2D) set, rest)
  | cs => (.none, cs)

mutual

def bracketed? (f : Flags) : Nat → List Char → Option (CharSet × List Char)
  | 0, _ => none
  | fuel + 1, cs =>
    let (negated, cs) := match skipSpacing f cs with
      | '^' :: rest => (true, skipSpacing f rest)
      | rest => (false, rest)
    let (hyphens, rest) := leadingHyphens f cs
    let (opening, rest) := match cs, rest with
      | ']' :: _, _ :: rest => (f.literal 0x5D, rest)
      | _, rest => (hyphens, rest)
    match classBody? f fuel none opening rest with
    | some (set, rest) =>
      if negated then if f.unicode then some (.complement set, rest) else none
      else some (set, rest)
    | none => none

def classBody? (f : Flags) :
    Nat → Option (SetOp × CharSet) → CharSet → List Char → Option (CharSet × List Char)
  | 0, _, _, _ => none
  | fuel + 1, pending, set, cs =>
    match skipSpacing f cs with
    | [] => none
    | ']' :: rest => some (applyPending pending set, rest)
    | '[' :: rest =>
      match bracketed? f fuel rest with
      | some (inner, rest) => classBody? f fuel pending (.union set inner) rest
      | none => none
    | cs =>
      match setOp? cs with
      | some (op, rest) => classBody? f fuel (some (op, applyPending pending set)) .none rest
      | none =>
        match classRange? f cs with
        | some (item, rest) => classBody? f fuel pending (.union set item) rest
        | none => none

end

def charClass? (f : Flags) (cs : List Char) : Option (CharSet × List Char) :=
  bracketed? f (2 * cs.length + 2) cs

def countLimit : Nat := Nat.pow 2 32

def count? (limit : Nat) (cs : List Char) : Option (Nat × List Char) :=
  let digits := cs.takeWhile Char.isDigit
  let n := Decimal.ofDigits digits
  if digits.isEmpty || limit ≤ n then none else some (n, cs.dropWhile Char.isDigit)

def bounds? (limit : Nat) (cs : List Char) : Option ((Nat × Option Nat) × List Char) := do
  let (least, rest) ← count? limit cs
  match rest with
  | '\x7d' :: rest => some ((least, some least), rest)
  | ',' :: '\x7d' :: rest => some ((least, none), rest)
  | ',' :: rest => do
    let (most, rest) ← count? limit rest
    match rest with
    | '\x7d' :: rest => some ((least, some most), rest)
    | _ => none
  | _ => none

def Flags.set? (f : Flags) (c : Char) (on : Bool) : Option Flags :=
  match c with
  | 'i' => some { f with folded := on }
  | 'm' => some { f with lines := on }
  | 's' => some { f with dotAll := on }
  | 'R' => some { f with returns := on }
  | 'U' => some { f with swapped := on }
  | 'u' => some { f with unicode := on }
  | 'x' => some { f with spaced := on }
  | _ => none

structure Reader where
  rest : List Char
  flags : Flags := {}
  groups : Nat := 0
  names : List (String × Nat) := []
  numbered : Bool := false

namespace Reader

def skip (r : Reader) (rest : List Char) : Reader := { r with rest := rest }

def openGroup (r : Reader) (name : Option String) : Reader :=
  let index := r.groups + 1
  match name with
  | some name => { r with groups := index, names := (name, index) :: r.names }
  | none => { r with groups := index }

end Reader

/-- One expression after another. A sequence at the end stays one part of the whole. -/
def concat : List Regex → Regex
  | [] => .empty
  | [r] => r
  | [a, b] => .seq a (if b.isSeq then .group 0 b else b)
  | r :: rs => .seq r (concat rs)

def quantifier? (limit : Nat) : List Char → Option ((Nat × Option Nat) × List Char)
  | '*' :: rest => some ((0, none), rest)
  | '+' :: rest => some ((1, none), rest)
  | '?' :: rest => some ((0, some 1), rest)
  | '\x7b' :: rest => bounds? limit rest
  | _ => none

def laziness (cs : List Char) : Bool × List Char :=
  match cs with
  | '?' :: rest => (true, rest)
  | rest => (false, rest)

def inOrder (bounds : Nat × Option Nat) : Bool :=
  match bounds.2 with
  | some most => bounds.1 ≤ most
  | none => true

end SchemaLogic.Pattern
