import SchemaLogic.Pattern.CharSet

/-! # Regular expressions with look-around and back references, and their matches in a text

Matches are listed in order of preference, so that what commits to the first match (an atomic
group, a plain part that ends a look-ahead) commits to the right one; equal outcomes are listed
once, which keeps lists short. -/
namespace SchemaLogic

inductive Anchor where
  | textStart
  | textEnd
  | lineStart (returns : Bool)
  | lineEnd (returns : Bool)
  | wordBoundary
  | notWordBoundary
  deriving DecidableEq, Repr

/-- Groups that capture are numbered from 1; a group with the index 0 only holds its body
together. -/
inductive Regex where
  | empty
  | char (set : CharSet)
  | anchor (a : Anchor)
  | seq (a b : Regex)
  | alt (a b : Regex)
  | loop (body : Regex) (least : Nat) (most : Option Nat) (greedy : Bool)
  | group (index : Nat) (body : Regex)
  | lookahead (negated : Bool) (body : Regex)
  | lookbehind (negated : Bool) (body : Regex)
  | atomic (body : Regex)
  | backref (index : Nat) (folded : Bool)
  | entered (index : Nat)
  | conditional (test yes no : Regex)
  deriving DecidableEq, Repr

/-- Where a group was entered last, and where it was left last. -/
structure Capture where
  index : Nat
  start : Nat
  stop : Option Nat
  deriving DecidableEq, Repr

structure Mark where
  position : Nat
  captures : List Capture
  deriving DecidableEq, Repr

namespace Mark

def move (m : Mark) (position : Nat) : Mark := { m with position := position }

def capture? (m : Mark) (index : Nat) : Option Capture := m.captures.find? (·.index == index)

/-- A group begins here; until it ends, its last end stays known. -/
def enter (m : Mark) (index : Nat) : Mark :=
  let capture := ⟨index, m.position, (m.capture? index).bind (·.stop)⟩
  { m with captures := capture :: m.captures.filter (·.index != index) }

def leave (m : Mark) (index : Nat) : Mark :=
  let close := fun c : Capture => if c.index == index then { c with stop := some m.position } else c
  { m with captures := m.captures.map close }

end Mark

/-- A text as code points, and the groups that some back reference names. -/
structure Subject where
  text : Array Nat
  referenced : List Nat

namespace Anchor

def isWordAt (text : Array Nat) (position : Nat) : Bool :=
  match text[position]? with
  | some n => CharSet.word.contains n
  | none => false

def isBoundary (text : Array Nat) (position : Nat) : Bool :=
  (position != 0 && isWordAt text (position - 1)) != isWordAt text position

/-- With returns, a line also ends at a carriage return, and a pair of both is one end. -/
def holds (text : Array Nat) (position : Nat) : Anchor → Bool
  | .textStart => position == 0
  | .textEnd => position == text.size
  | .lineStart returns =>
    position == 0 || text[position - 1]? == some 10
      || (returns && text[position - 1]? == some 13 && text[position]? != some 10)
  | .lineEnd returns =>
    position == text.size
      || (text[position]? == some 10
        && !(returns && position != 0 && text[position - 1]? == some 13))
      || (returns && text[position]? == some 13)
  | .wordBoundary => isBoundary text position
  | .notWordBoundary => !isBoundary text position

end Anchor

namespace Regex

def references : Regex → List Nat
  | .seq a b => a.references ++ b.references
  | .alt a b => a.references ++ b.references
  | .loop body _ _ _ => body.references
  | .group _ body => body.references
  | .lookahead _ body => body.references
  | .lookbehind _ body => body.references
  | .atomic body => body.references
  | .backref index _ => [index]
  | .entered index => [index]
  | .conditional test yes no => test.references ++ yes.references ++ no.references
  | _ => []

def isPlain (referenced : List Nat) : Regex → Bool
  | .seq a b => a.isPlain referenced && b.isPlain referenced
  | .alt a b => a.isPlain referenced && b.isPlain referenced
  | .loop body _ _ _ => body.isPlain referenced
  | .group index body => !referenced.contains index && body.isPlain referenced
  | .lookahead _ _ => false
  | .lookbehind _ _ => false
  | .atomic _ => false
  | .backref _ _ => false
  | .entered _ => false
  | .conditional _ _ _ => false
  | _ => true

def isSeq : Regex → Bool
  | .seq _ _ => true
  | _ => false

def rounds (body : Mark → List Mark) : Nat → List Mark → List Mark
  | 0, marks => marks
  | _ + 1, [] => []
  | n + 1, marks => rounds body n (marks.flatMap body).eraseDups

/-- What further rounds reach from a mark, with the outcomes found before (the last one first).
A round that stays in place ends an unlimited loop with what it captured; a limited loop goes on
while rounds change something. Where the number of rounds is limited, a mark counts as seen only
with the same number of rounds left. -/
def explore (body : Mark → List Mark) (greedy limited : Bool) :
    Nat → List (Nat × Mark) × List Mark → Mark → List (Nat × Mark) × List Mark
  | fuel, (seen, found), m =>
    let visit := (if limited then fuel else 0, m)
    if seen.contains visit then (seen, found)
    else
      let start := (visit :: seen, if greedy then found else m :: found)
      let (seen, found) := match fuel with
        | 0 => start
        | fuel + 1 => (body m).foldl (fun state next =>
          if m.position < next.position || (limited && next != m) then
            explore body greedy limited fuel state next
          else (state.1, next :: state.2)) start
      (seen, if greedy then m :: found else found)

/-- Outcomes of a loop. An unlimited loop over a text needs one round more at most than there are
characters left. -/
def iterate (size : Nat) (body : Mark → List Mark) (least : Nat) (most : Option Nat)
    (greedy : Bool) (m : Mark) : List Mark :=
  let begun := rounds body least [m]
  let (_, found) := begun.foldl (fun state next =>
    match most with
    | some n => explore body greedy true (n - least) state next
    | none => explore body greedy false (size + 1 - next.position) state next) ([], [])
  found.reverse.eraseDups

def repeatsAt (text : Array Nat) (folded : Bool) (start stop position : Nat) : Bool :=
  let normal := fun n => if folded then Text.fold n else n
  position + (stop - start) ≤ text.size
    && (List.range (stop - start)).all fun i =>
      text[start + i]?.map normal == text[position + i]?.map normal

def repeated? (text : Array Nat) (folded : Bool) (c : Capture) (m : Mark) : Option Mark := do
  let stop ← c.stop
  if c.start ≤ stop && repeatsAt text folded c.start stop m.position then
    some (m.move (m.position + (stop - c.start)))
  else none

def around (negated : Bool) (m : Mark) (reached : List Mark) : List Mark :=
  if negated then if reached.isEmpty then [m] else [] else reached.eraseDups

/-- What has settled keeps its preferred outcome only. -/
def kept (settled : Bool) (marks : List Mark) : List Mark :=
  if settled then marks.take 1 else marks

/-- The outcomes from a mark, the preferred one first. At the end of a look-ahead or an atomic group
the plain parts settle: the end of a sequence, each branch of a choice, the body of a group or of
an option. Elsewhere every outcome is listed. -/
def outcomes (s : Subject) : Regex → (ending : Bool) → Mark → List Mark
  | .empty, _, m => [m]
  | .char set, _, m =>
    match s.text[m.position]? with
    | some n => if set.contains n then [m.move (m.position + 1)] else []
    | none => []
  | .anchor a, _, m => if a.holds s.text m.position then [m] else []
  | .seq a b, ending, m =>
    let plain := b.isPlain s.referenced
    let after := fun next => b.outcomes s (ending && (plain || b.isSeq)) next
    kept (ending && plain && a.isPlain s.referenced)
      ((a.outcomes s false m).flatMap after).eraseDups
  | .alt a b, ending, m =>
    kept (ending && a.isPlain s.referenced && b.isPlain s.referenced)
      (a.outcomes s ending m ++ b.outcomes s ending m).eraseDups
  | .loop body least most greedy, ending, m =>
    let settled := ending && body.isPlain s.referenced
    let optional := ending && !settled && least = 0 && most = some 1
    kept settled
      (iterate s.text.size (fun next => body.outcomes s optional next) least most greedy m)
  | .group index body, ending, m =>
    if s.referenced.contains index then
      (body.outcomes s ending (m.enter index)).map (·.leave index)
    else body.outcomes s ending m
  | .lookahead negated body, _, m =>
    around negated m ((body.outcomes s true m).map (·.move m.position))
  | .lookbehind negated body, _, m =>
    around negated m ((List.range (m.position + 1)).flatMap fun back =>
      (body.outcomes s false (m.move (m.position - back))).filter (·.position == m.position))
  | .atomic body, _, m => (body.outcomes s true m).take 1
  | .backref index folded, _, m =>
    ((m.capture? index).bind (repeated? s.text folded · m)).toList
  | .entered index, _, m => if (m.capture? index).isSome then [m] else []
  | .conditional test yes no, ending, m =>
    -- What the test takes stays taken, and a branch that fails does not lead to the other one.
    match test.outcomes s true m with
    | next :: _ => yes.outcomes s ending next
    | [] => no.outcomes s ending m

def search (r : Regex) (text : List Nat) : Bool :=
  let s : Subject := ⟨text.toArray, r.references⟩
  (List.range (s.text.size + 1)).any fun start => !(r.outcomes s false ⟨start, []⟩).isEmpty

end Regex

end SchemaLogic
