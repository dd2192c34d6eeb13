import SchemaLogic.Pattern.Basic
import SchemaLogic.Pattern.Extended
import SchemaLogic.Pattern.Standard

/-! # The engines of this library

Both search by trying every way to match, so neither gives up, and neither limits the size of a
pattern. Of the character properties they know white space and the general categories. What holds of
schemas is proved for engines in general. -/
namespace SchemaLogic.Pattern

instance engines : Engines where
  standard source := (Standard.parse? source).map Regex.search
  backtracking source := (Extended.parse? source).map fun e text => some (e.search text)
  standard_unclosed := by decide +kernel
  backtracking_unclosed := by decide +kernel

end SchemaLogic.Pattern
