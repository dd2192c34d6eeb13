import SchemaLogic.Pattern.Grammar
import SchemaLogic.Pattern.Width

/-! # The extended grammar

The standard constructs with look-around, back references, atomic groups, conditionals and comments.
A piece takes one quantifier, look-around takes none. A reference may stand before its group. -/
namespace SchemaLogic.Pattern.Extended

def skipComment? : List Char → Option (List Char)
  | [] => none
  | ')' :: rest => some rest
  | '\\' :: _ :: rest => skipComment? rest
  | _ :: rest => skipComment? rest

def isBlank (c : Char) : Bool := c == ' ' || c == '\t' || c == '\n' || c == '\r'

def trivia? (f : Flags) : Nat → List Char → Option (List Char)
  | 0, cs => some cs
  | fuel + 1, cs =>
    match cs with
    | '(' :: '?' :: '#' :: rest => (skipComment? rest).bind (trivia? f fuel)
    | c :: rest =>
      if f.spaced && isBlank c then trivia? f fuel rest
      else if f.spaced && c = '#' then trivia? f fuel (rest.dropWhile (· != '\n'))
      else some (c :: rest)
    | [] => some []

def skipTrivia? (r : Reader) : Option Reader :=
  (trivia? r.flags (r.rest.length + 1) r.rest).map r.skip

def isNameChar (c : Char) : Bool := c == '_' || Text.isAlphanumeric c.toNat

def name? (close : Char) (cs : List Char) : Option (String × List Char) := do
  let name := cs.takeWhile isNameChar
  if name.isEmpty then none
  match cs.dropWhile isNameChar with
  | c :: rest => if c = close then some (String.ofList name, rest) else none
  | [] => none

def numeralLimit : Nat := Nat.pow 2 64

def groupOf? (r : Reader) (name : String) : Option Nat :=
  (r.names.lookup name).orElse fun _ =>
    if name.toList.all Char.isDigit then some (Decimal.ofDigits name.toList) else none

def namedReference? (r : Reader) (close : Char) (cs : List Char) : Option (Regex × Reader) := do
  let (name, rest) ← name? close cs
  let index ← groupOf? r name
  some (.backref index r.flags.folded, r.skip rest)

def numberedReference? (r : Reader) (cs : List Char) : Option (Regex × Reader) := do
  let (index, rest) ← count? numeralLimit cs
  some (.backref index r.flags.folded, { r with rest := rest, numbered := true })

/-- Switches up to a closing parenthesis or a colon, which is returned too. A hyphen turns the
switches after it off and may occur once; a hyphen alone, or nothing in parentheses, is refused. -/
def switches? (f : Flags) (seen : List Char) : List Char → Option (Flags × Char × List Char)
  | [] => none
  | c :: cs =>
    if c = ')' || c = ':' then
      if seen = ['-'] || (c = ')' && seen.isEmpty) then none else some (f, c, cs)
    else if c = '-' then if seen.contains c then none else switches? f (c :: seen) cs
    else
      match f.set? c (!seen.contains '-') with
      | some f => switches? f (c :: seen) cs
      | none => none

inductive Opening where
  | flags (f : Flags)
  | plain (f : Flags)
  | capture (name : Option String)
  | look (behind negated : Bool)
  | atomic
  | reference
  | conditional

def opening? (f : Flags) (cs : List Char) : Option (Opening × List Char) :=
  match cs with
  | '?' :: '=' :: rest => some (.look false false, rest)
  | '?' :: '!' :: rest => some (.look false true, rest)
  | '?' :: '<' :: '=' :: rest => some (.look true false, rest)
  | '?' :: '<' :: '!' :: rest => some (.look true true, rest)
  | '?' :: 'P' :: '<' :: rest =>
    (name? '>' rest).map fun (name, rest) => (.capture (some name), rest)
  | '?' :: '<' :: rest => (name? '>' rest).map fun (name, rest) => (.capture (some name), rest)
  | '?' :: 'P' :: '=' :: rest => some (.reference, rest)
  | '?' :: '>' :: rest => some (.atomic, rest)
  | '?' :: '(' :: rest => some (.conditional, rest)
  | '?' :: rest =>
    match switches? f [] rest with
    | some (g, last, rest) =>
      if g.unicode then some (if last = ')' then .flags g else .plain g, rest) else none
    | none => none
  | rest => some (.capture none, rest)

def escaped? (r : Reader) : List Char → Option (Regex × Reader)
  | [] => none
  | 'k' :: '<' :: rest => namedReference? r '>' rest
  | 'k' :: '\x27' :: rest => namedReference? r '\x27' rest
  | c :: rest =>
    if c.isDigit then numberedReference? r (c :: rest)
    else if c.toNat < 0x20 then none
    else
      match escape? r.flags (c :: rest) with
      | some (.literal n, rest) => some (.char (r.flags.literal n), r.skip rest)
      | some (.set s, rest) => some (.char s, r.skip rest)
      | some (.anchor a, rest) => some (.anchor a, r.skip rest)
      | none => none

def isRepeatable : Regex → Bool
  | .empty => false
  | .lookahead _ _ => false
  | .lookbehind _ _ => false
  | _ => true

/-- Bounds as a loop has them: the greatest number stands for no bound. -/
def loopBounds (bounds : Nat × Option Nat) : Nat × Option Nat :=
  (bounds.1, bounds.2.filter (· + 1 != numeralLimit))

def inRange (bounds : Nat × Option Nat) : Bool :=
  inOrder bounds && bounds.1 < countLimit && bounds.2.all (· < countLimit)

/-- A piece under the quantifier that follows it, if one does. A plus after a quantifier keeps
the loop from giving anything back. A brace with a number too great to be read opens no
quantifier. -/
def quantified? (e : Regex) (r : Reader) : Option (Regex × Reader) :=
  match quantifier? numeralLimit r.rest with
  | none => some (e, r)
  | some (bounds, rest) =>
    let bounds := loopBounds bounds
    if isRepeatable e && inRange bounds then
      match trivia? r.flags (rest.length + 1) rest with
      | none => none
      | some rest =>
        let (isLazy, rest) := laziness rest
        let loop : Regex := .loop e bounds.1 bounds.2 (isLazy == r.flags.swapped)
        match rest with
        | '+' :: rest => some (.atomic loop, r.skip rest)
        | rest => some (loop, r.skip rest)
    else none

/-- References by number do not go with named groups. -/
def isConsistent (r : Reader) : Bool := !(r.numbered && !r.names.isEmpty)

def alternative : Regex → Regex
  | .alt a b => .group 0 (.alt a b)
  | e => e

/-- A reference as the test of a conditional asks whether its group was entered. The first of
several alternatives is the branch to take if the test succeeds. Without any branch there has to be
such a reference. -/
def conditional? (test body : Regex) (bare : Bool) : Option Regex :=
  let (asked, isReference) := match test with
    | .backref index _ => (Regex.entered index, true)
    | e => (e, false)
  let branches := match body with
    | .alt yes no => (yes, no)
    | e => (e, Regex.empty)
  if bare then if isReference then some asked else none
  else if branches = (.empty, .empty) then some asked
  else some (.conditional asked branches.1 branches.2)

mutual

/-- Alternatives up to the end or a closing parenthesis, given whether some stand before them. What
has no alternatives has to be consistent. -/
def alternatives? : Nat → Bool → Reader → Option (Regex × Reader)
  | 0, _, _ => none
  | fuel + 1, further, r =>
    match pieces? fuel [] r with
    | none => none
    | some (first, r) =>
      match r.rest with
      | '|' :: rest =>
        match alternatives? fuel true (r.skip rest) with
        | some (second, r) => some (.alt (alternative first) second, r)
        | none => none
      | _ =>
        if further then some (alternative first, r)
        else if isConsistent r then some (first, r)
        else none

def pieces? : Nat → List Regex → Reader → Option (Regex × Reader)
  | 0, _, _ => none
  | fuel + 1, done, r =>
    match skipTrivia? r with
    | none => none
    | some r =>
      match r.rest with
      | [] => some (concat done.reverse, r)
      | c :: _ =>
        if c = '|' || c = ')' then some (concat done.reverse, r)
        else
          match (atom? fuel r).bind fun (e, r) => (skipTrivia? r).bind (quantified? e) with
          | some (.empty, r) => pieces? fuel done r
          | some (e, r) => pieces? fuel (e :: done) r
          | none => none

def test? : Nat → Reader → Option (Regex × Reader)
  | 0, _ => none
  | fuel + 1, r =>
    match r.rest with
    | '<' :: rest => namedReference? r '>' rest
    | '\x27' :: rest => namedReference? r '\x27' rest
    | c :: rest =>
      if c.isDigit then numberedReference? r (c :: rest) else alternatives? fuel false r
    | [] => none

/-- One piece without its quantifier. Switches set in a group stay in force after it, unless the
group itself may set some. -/
def atom? : Nat → Reader → Option (Regex × Reader)
  | 0, _ => none
  | fuel + 1, r =>
    match r.rest with
    | '(' :: rest =>
      match (skipTrivia? (r.skip rest)).bind fun r => opening? r.flags r.rest with
      | none => none
      | some (.flags f, rest) => some (.empty, { r with flags := f, rest := rest })
      | some (.reference, rest) => namedReference? r ')' rest
      | some (.conditional, rest) =>
        match test? fuel (r.skip rest) with
        | some (test, inner) =>
          match inner.rest with
          | ')' :: rest =>
            match alternatives? fuel false (inner.skip rest) with
            | some (body, after) =>
              match after.rest with
              | ')' :: tail =>
                let bare := after.rest.length = rest.length
                (conditional? test body bare).map fun e => (e, after.skip tail)
              | _ => none
            | none => none
          | _ => none
        | none => none
      | some (opening, rest) =>
        let start : Reader := match opening with
          | .plain f => { r with flags := f, rest := rest }
          | .capture name => (r.openGroup name).skip rest
          | _ => r.skip rest
        match alternatives? fuel false start with
        | some (body, inner) =>
          match inner.rest with
          | ')' :: rest =>
            let after := inner.skip rest
            match opening with
            | .capture _ => some (.group (r.groups + 1) body, after)
            | .look false negated => some (.lookahead negated body, after)
            | .look true negated => some (.lookbehind negated body, after)
            | .atomic => some (.atomic body, after)
            | _ => some (body, { after with flags := r.flags })
          | _ => none
        | none => none
    | '[' :: rest =>
      (charClass? { r.flags with spaced := false } rest).map fun (set, rest) =>
        (.char set, r.skip rest)
    | '\\' :: rest => escaped? r rest
    | '^' :: rest => some (.anchor r.flags.start, r.skip rest)
    | '$' :: rest => some (.anchor r.flags.stop, r.skip rest)
    | '.' :: rest => some (.char r.flags.dot, r.skip rest)
    | c :: rest =>
      if c = '*' || c = '+' || c = '?' then none
      else some (.char (r.flags.literal c.toNat), r.skip rest)
    | [] => none

end

/-- The expression of a whole pattern. A reference needs a group, and a look-behind a body that it
can hold. -/
def parse? (cs : List Char) : Option Regex :=
  match alternatives? (3 * cs.length + 4) false { rest := cs } with
  | some (e, r) =>
    let known := e.references.all fun index => 0 < index && index ≤ r.groups
    if r.rest.isEmpty && known && e.canLookBehind then some e else none
  | none => none

end SchemaLogic.Pattern.Extended
