import SchemaLogic.Text.Category
import SchemaLogic.Text.Fold

/-! # Sets of characters, as written in a bracketed class -/
namespace SchemaLogic

inductive CharSet where
  | none
  | range (first last : Nat)
  | space
  | category (categories : List Text.Category)
  | folded (set : CharSet)
  | complement (set : CharSet)
  | union (a b : CharSet)
  | inter (a b : CharSet)
  | diff (a b : CharSet)
  | symmDiff (a b : CharSet)
  deriving DecidableEq, Repr

namespace CharSet

def single (n : Nat) : CharSet := .range n n

/-- Membership of a code point; a folded set holds every case variant of its members. -/
def contains : CharSet → Nat → Bool
  | .none, _ => false
  | .range first last, n => first ≤ n && n ≤ last
  | .space, n => Text.isSpace n
  | .category categories, n => categories.contains (Text.Category.of n)
  | .folded set, n => (Text.caseVariants n).any fun variant => set.contains variant
  | .complement set, n => !set.contains n
  | .union a b, n => a.contains n || b.contains n
  | .inter a b, n => a.contains n && b.contains n
  | .diff a b, n => a.contains n && !b.contains n
  | .symmDiff a b, n => a.contains n != b.contains n

def word : CharSet :=
  .union (.range 0x30 0x39) (.union (.range 0x41 0x5A) (.union (.range 0x61 0x7A) (single 0x5F)))

end CharSet

end SchemaLogic
