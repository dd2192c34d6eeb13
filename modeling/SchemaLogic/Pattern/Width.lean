import SchemaLogic.Pattern.Regex

/-! # How many characters an expression takes, and what a look-behind can hold

A look-behind steps back by the width of its body. A body without one width is read backwards
instead, which only what needs no captures and no look-around allows. -/
namespace SchemaLogic.Regex

/-- What a look-behind asks of its body: the number of characters that every match takes, and
whether each branch at the top has such a number or is plain. -/
structure Extent where
  width : Option Nat
  reversible : Bool
  deriving DecidableEq, Repr

def Extent.single (width : Option Nat) (plain : Bool) : Extent := ⟨width, width.isSome || plain⟩

/-- The extent of an expression, in a state that holds the widths of the groups closed so far. A
reference is as wide as its group, if that was closed before it. There is none where a look-behind
cannot hold its body. -/
def extent (referenced : List Nat) : Regex → StateT (List (Nat × Nat)) Option Extent
  | .empty => return .single (some 0) true
  | .char _ => return .single (some 1) true
  | .anchor _ => return .single (some 0) true
  | .seq a b => do
    let first ← a.extent referenced
    let second ← b.extent referenced
    return .single (first.width.bind fun n => second.width.map (n + ·))
      (a.isPlain referenced && b.isPlain referenced)
  | .alt a b => do
    let first ← a.extent referenced
    let second ← b.extent referenced
    let width := if first.width = second.width then first.width else none
    return ⟨width, first.reversible && second.reversible⟩
  | .loop body least most _ => do
    let inner ← body.extent referenced
    return .single (if most = some least then inner.width.map (· * least) else none)
      (body.isPlain referenced)
  | .group index body => do
    let inner ← body.extent referenced
    modify fun closed => (inner.width.map fun n => (index, n)).toList ++ closed
    return .single inner.width (!referenced.contains index && body.isPlain referenced)
  | .lookahead _ body => do
    let _ ← body.extent referenced
    return .single (some 0) false
  | .lookbehind _ body => do
    let inner ← body.extent referenced
    if inner.reversible then return .single (some 0) false else failure
  | .atomic body => do
    let inner ← body.extent referenced
    return .single inner.width false
  | .backref index _ => do
    return .single ((← get).lookup index) false
  | .entered _ => return .single (some 0) false
  | .conditional test yes no => do
    let first ← test.extent referenced
    let second ← yes.extent referenced
    let other ← no.extent referenced
    let taken := first.width.bind fun n => second.width.map (n + ·)
    return .single (if taken = other.width then taken else none) false

def canLookBehind (e : Regex) : Bool := ((e.extent e.references).run []).isSome

end SchemaLogic.Regex
