import SchemaLogic.Pattern.Grammar

/-! # The standard grammar: literals, classes, groups, alternation, quantifiers, anchors and flags

Quantifiers may follow one another; look-around and back references do not exist. -/
namespace SchemaLogic.Pattern.Standard

def isNameStart (c : Char) : Bool := c == '_' || Text.isAlphabetic c.toNat

def isNameChar (c : Char) : Bool :=
  c == '_' || c == '.' || c == '[' || c == ']' || Text.isAlphanumeric c.toNat

def groupName? (cs : List Char) : Option (String × List Char) := do
  let name := cs.takeWhile (· != '>')
  let rest ← (cs.dropWhile (· != '>')).tail?
  match name with
  | [] => none
  | c :: tail =>
    if isNameStart c && tail.all isNameChar then some (String.ofList name, rest) else none

inductive Opening where
  | flags (f : Flags)
  | plain (f : Flags)
  | capture (name : Option String)

/-- Switches up to a closing parenthesis or a colon, which is returned too. A letter and the
hyphen that turns switches off may occur once, and something has to follow the hyphen. -/
def flagItems? (f : Flags) (seen : List Char) : List Char → Option (Flags × Char × List Char)
  | [] => none
  | c :: cs =>
    if c = ')' || c = ':' then
      if seen.head? = some '-' || (c = ')' && seen.isEmpty) then none else some (f, c, cs)
    else if seen.contains c then none
    else if c = '-' then flagItems? f (c :: seen) cs
    else
      match f.set? c (!seen.contains '-') with
      | some f => flagItems? f (c :: seen) cs
      | none => none

/-- Look-around is refused before names are tried. -/
def opening? (f : Flags) (cs : List Char) : Option (Opening × List Char) :=
  match skipSpacing f cs with
  | '?' :: '=' :: _ => none
  | '?' :: '!' :: _ => none
  | '?' :: '<' :: '=' :: _ => none
  | '?' :: '<' :: '!' :: _ => none
  | '?' :: 'P' :: '<' :: rest =>
    (groupName? rest).map fun (name, rest) => (.capture (some name), rest)
  | '?' :: '<' :: rest => (groupName? rest).map fun (name, rest) => (.capture (some name), rest)
  | '?' :: rest =>
    (flagItems? f [] rest).map fun (f, last, rest) =>
      (if last = ')' then .flags f else .plain f, rest)
  | rest => some (.capture none, rest)

def escaped (f : Flags) : Primitive → Regex
  | .literal n => .char (f.literal n)
  | .set s => .char s
  | .anchor a => .anchor a

mutual

def alternatives? : Nat → Reader → Option (Regex × Reader)
  | 0, _ => none
  | fuel + 1, r =>
    match pieces? fuel [] false r with
    | none => none
    | some (first, r) =>
      match r.rest with
      | '|' :: rest =>
        match alternatives? fuel (r.skip rest) with
        | some (second, r) => some (.alt first second, r)
        | none => none
      | _ => some (first, r)

/-- A sequence of pieces, with those before it the last one first. A quantifier applies to the
last piece if that can be repeated. -/
def pieces? : Nat → List Regex → Bool → Reader → Option (Regex × Reader)
  | 0, _, _, _ => none
  | fuel + 1, done, repeatable, r =>
    let finished := some (concat done.reverse, r)
    match skipSpacing r.flags r.rest with
    | [] => some (concat done.reverse, r.skip [])
    | '|' :: rest => finished.map fun (e, r) => (e, r.skip ('|' :: rest))
    | ')' :: rest => finished.map fun (e, r) => (e, r.skip (')' :: rest))
    | '(' :: rest =>
      match opening? r.flags rest with
      | none => none
      | some (.flags f, rest) => pieces? fuel done false { r with flags := f, rest := rest }
      | some (.plain f, rest) =>
        match alternatives? fuel { r with flags := f, rest := rest } with
        | some (body, inner) =>
          match inner.rest with
          | ')' :: rest =>
            pieces? fuel (body :: done) true { inner with flags := r.flags, rest := rest }
          | _ => none
        | none => none
      | some (.capture name, rest) =>
        if name.any fun n => (r.names.lookup n).isSome then none
        else
          match alternatives? fuel ((r.openGroup name).skip rest) with
          | some (body, inner) =>
            match inner.rest with
            | ')' :: rest =>
              pieces? fuel (.group (r.groups + 1) body :: done) true
                { inner with flags := r.flags, rest := rest }
            | _ => none
          | none => none
    | '[' :: rest =>
      match charClass? r.flags rest with
      | some (set, rest) => pieces? fuel (.char set :: done) true (r.skip rest)
      | none => none
    | '\\' :: rest =>
      match escape? r.flags rest with
      | some (p, rest) => pieces? fuel (escaped r.flags p :: done) true (r.skip rest)
      | none => none
    | '^' :: rest => pieces? fuel (.anchor r.flags.start :: done) true (r.skip rest)
    | '$' :: rest => pieces? fuel (.anchor r.flags.stop :: done) true (r.skip rest)
    | '.' :: rest => pieces? fuel (.char r.flags.dot :: done) true (r.skip rest)
    | c :: rest =>
      if c = '*' || c = '+' || c = '?' || c = '\x7b' then
        match done, repeatable, quantifier? countLimit (c :: rest) with
        | last :: before, true, some (bounds, rest) =>
          let (isLazy, rest) := laziness rest
          if inOrder bounds then
            pieces? fuel (.loop last bounds.1 bounds.2 (isLazy == r.flags.swapped) :: before) true
              (r.skip rest)
          else none
        | _, _, _ => none
      else pieces? fuel (.char (r.flags.literal c.toNat) :: done) true (r.skip rest)

end

def parse? (cs : List Char) : Option Regex :=
  match alternatives? (2 * cs.length + 4) { rest := cs } with
  | some (e, r) => if r.rest.isEmpty then some e else none
  | none => none

end SchemaLogic.Pattern.Standard
