import SchemaLogic.Pattern.Dialect

/-! # Character classes of ECMA-262

The grammar of ECMA-262 for what stands between the brackets of a class outside of Unicode mode,
with the productions of its Annex B, and the code units that a class matches. A character above
U+FFFF counts as its two code units here. -/
namespace SchemaLogic.Pattern

/-- An atom of a class: a bare hyphen, any other code unit, or an escape for a set of them. -/
inductive ClassAtom where
  | hyphen
  | unit (n : Nat)
  | digit (negated : Bool)
  | word (negated : Bool)
  deriving DecidableEq, Repr

inductive ClassItem where
  | single (a : ClassAtom)
  | span (first last : ClassAtom)
  deriving DecidableEq, Repr

/-! ## Atoms -/

def plainAtoms (c : Char) : List ClassAtom :=
  if c = '-' then [.hyphen] else (Text.unitsOf c).map .unit

/-- The atoms after a backslash. Of letters and digits, only those that stand for a set and the
backspace are considered. -/
def escapedAtoms? (c : Char) : Option (List ClassAtom) :=
  match c with
  | 'd' => some [.digit false]
  | 'D' => some [.digit true]
  | 'w' => some [.word false]
  | 'W' => some [.word true]
  | 'b' => some [.unit 8]
  | c => if c.isAlphanum then none else some ((Text.unitsOf c).map .unit)

def atoms? : List Char → Option (List ClassAtom)
  | [] => some []
  | '\\' :: c :: rest => (escapedAtoms? c).bind fun atoms => (atoms? rest).map (atoms ++ ·)
  | c :: rest => if c = '\\' ∨ c = ']' then none else (atoms? rest).map (plainAtoms c ++ ·)

/-! ## Items -/

/-- The nonterminals `ClassRanges`, `NonemptyClassRanges` and `NonemptyClassRangesNoDash`. -/
inductive ClassRule where
  | ranges
  | nonempty
  | noDash
  deriving DecidableEq, Repr

/-- The items of a sequence of atoms. Without a dash, an atom that is not the last one is no
hyphen. -/
inductive Derives : ClassRule → List ClassAtom → List ClassItem → Prop where
  | empty : Derives .ranges [] []
  | ranges {atoms : List ClassAtom} {items : List ClassItem}
    (body : Derives .nonempty atoms items) : Derives .ranges atoms items
  | atom {rule : ClassRule} (a : ClassAtom) (nonempty : rule ≠ .ranges) :
    Derives rule [a] [.single a]
  | next {rule : ClassRule} {a : ClassAtom} {atoms : List ClassAtom} {items : List ClassItem}
    (nonempty : rule ≠ .ranges) (dash : rule = .noDash → a ≠ .hyphen)
    (rest : Derives .noDash atoms items) : Derives rule (a :: atoms) (.single a :: items)
  | span {rule : ClassRule} {a : ClassAtom} (b : ClassAtom) {atoms : List ClassAtom}
    {items : List ClassItem} (nonempty : rule ≠ .ranges) (dash : rule = .noDash → a ≠ .hyphen)
    (rest : Derives .ranges atoms items) :
    Derives rule (a :: .hyphen :: b :: atoms) (.span a b :: items)

/-! ## Meaning -/

def isDigitUnit (unit : Nat) : Bool := 0x30 ≤ unit && unit ≤ 0x39

def isWordUnit (unit : Nat) : Bool :=
  isDigitUnit unit || (0x41 ≤ unit && unit ≤ 0x5A) || unit == 0x5F || (0x61 ≤ unit && unit ≤ 0x7A)

namespace ClassAtom

def value? : ClassAtom → Option Nat
  | .hyphen => some 0x2D
  | .unit n => some n
  | _ => none

def contains : ClassAtom → Nat → Bool
  | .hyphen, u => u == 0x2D
  | .unit n, u => u == n
  | .digit negated, u => isDigitUnit u != negated
  | .word negated, u => isWordUnit u != negated

end ClassAtom

namespace ClassItem

/-- Two code units span a range. Where one atom is a set, both and the hyphen stand for
themselves. -/
def contains : ClassItem → Nat → Bool
  | .single a, u => a.contains u
  | .span a b, u =>
    match a.value?, b.value? with
    | some first, some last => first ≤ u && u ≤ last
    | _, _ => a.contains u || b.contains u || u == 0x2D

def isOrdered : ClassItem → Bool
  | .single _ => true
  | .span a b =>
    match a.value?, b.value? with
    | some first, some last => first ≤ last
    | _, _ => true

end ClassItem

def classContains (negated : Bool) (items : List ClassItem) (unit : Nat) : Bool :=
  items.any (·.contains unit) != negated

def caret (negated : Bool) : List Char := if negated then ['^'] else []

/-- A text between brackets is a well-formed class. -/
structure IsClass (text : List Char) (negated : Bool) (items : List ClassItem) : Prop where
  derives : ∃ body atoms, text = caret negated ++ body ∧
    (negated = false → body.head? ≠ some '^') ∧ atoms? body = some atoms ∧
      Derives .ranges atoms items
  ordered : ∀ item ∈ items, item.isOrdered = true

end SchemaLogic.Pattern
