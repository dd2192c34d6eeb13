/-! # Runs of code points, the form in which tables of characters are kept -/
namespace SchemaLogic.Text

/-- The code points from a first to a last one, in steps. -/
abbrev Run := Nat × Nat × Nat

namespace Run

def contains (run : Run) (n : Nat) : Bool :=
  run.1 ≤ n && n ≤ run.2.1 && (n - run.1) % run.2.2 == 0

def anyContains (runs : List Run) (n : Nat) : Bool := runs.any (contains · n)

end Run

end SchemaLogic.Text
