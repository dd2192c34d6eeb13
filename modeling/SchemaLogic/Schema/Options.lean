import SchemaLogic.Json.Basic

/-! # The flags that change what a schema means -/
namespace SchemaLogic

structure Options where
  noNonFiniteNumber : Bool := false
  strictStringWidth : Bool := false
  strictPropertyCheck : Bool := false
  noArrayObject : Bool := false
  accurateMultipleOf : Bool := false
  unicodeAwareRegex : Bool := false
  fastAssertions : Bool := false
  deriving DecidableEq, Repr

inductive Flag where
  | noNonFiniteNumber
  | strictStringWidth
  | strictPropertyCheck
  | noArrayObject
  | accurateMultipleOf
  | unicodeAwareRegex
  | fastAssertions
  deriving DecidableEq, Repr

namespace Flag

def all : List Flag :=
  [.noNonFiniteNumber, .strictStringWidth, .strictPropertyCheck, .noArrayObject,
   .accurateMultipleOf, .unicodeAwareRegex, .fastAssertions]

def name : Flag → String
  | .noNonFiniteNumber => "noNonFiniteNumber"
  | .strictStringWidth => "strictStringWidth"
  | .strictPropertyCheck => "strictPropertyCheck"
  | .noArrayObject => "noArrayObject"
  | .accurateMultipleOf => "accurateMultipleOf"
  | .unicodeAwareRegex => "unicodeAwareRegex"
  | .fastAssertions => "fastAssertions"

def ofName? (text : String) : Option Flag := all.find? (·.name == text)

end Flag

namespace Options

/-- Everything exact and nothing fast. -/
def strict : Options :=
  { noNonFiniteNumber := true, strictStringWidth := true, strictPropertyCheck := true,
    noArrayObject := true, accurateMultipleOf := true, unicodeAwareRegex := true }

def get (o : Options) : Flag → Bool
  | .noNonFiniteNumber => o.noNonFiniteNumber
  | .strictStringWidth => o.strictStringWidth
  | .strictPropertyCheck => o.strictPropertyCheck
  | .noArrayObject => o.noArrayObject
  | .accurateMultipleOf => o.accurateMultipleOf
  | .unicodeAwareRegex => o.unicodeAwareRegex
  | .fastAssertions => o.fastAssertions

def set (o : Options) (flag : Flag) (on : Bool) : Options :=
  match flag with
  | .noNonFiniteNumber => { o with noNonFiniteNumber := on }
  | .strictStringWidth => { o with strictStringWidth := on }
  | .strictPropertyCheck => { o with strictPropertyCheck := on }
  | .noArrayObject => { o with noArrayObject := on }
  | .accurateMultipleOf => { o with accurateMultipleOf := on }
  | .unicodeAwareRegex => { o with unicodeAwareRegex := on }
  | .fastAssertions => { o with fastAssertions := on }

def setJson? (o : Options) (flag : Flag) : Json → Option Options
  | .bool on => some (o.set flag on)
  | _ => none

/-- Flags by name, others ignored, or the first flags in a list; every value is a boolean. -/
def ofJson? : Json → Option Options
  | .object members =>
    Flag.all.foldlM (fun o flag =>
      match members.lookup flag.name with
      | some value => o.setJson? flag value
      | none => some o) {}
  | .array values =>
    if Flag.all.length < values.length then none
    else (Flag.all.zip values).foldlM (fun o (flag, value) => o.setJson? flag value) {}
  | _ => none

def toJson (o : Options) : Json :=
  Json.ofMembers (Flag.all.map fun flag => (flag.name, .bool (o.get flag)))

end Options

end SchemaLogic
