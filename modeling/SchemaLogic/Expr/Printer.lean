import SchemaLogic.Expr.Basic
import SchemaLogic.Text.Quoted

/-! # The printed form of conditions -/
namespace SchemaLogic

def TypeCheck.render : TypeCheck → String
  | .string => "is_string"
  | .number => "is_number"
  | .finite => "is_finite"
  | .integer => "is_integer"
  | .array => "is_array"
  | .object => "is_object"
  | .plainObject => "is_plain_object"
  | .boolean => "is_boolean"
  | .null => "is_null"

def CmpOp.render : CmpOp → String
  | .lt => "<"
  | .le => "<="
  | .gt => ">"
  | .ge => ">="
  | .eq => "=="

def Measure.render : Measure → String
  | .codeUnits => "len"
  | .items => "len"
  | .codePoints => "chars"
  | .keys => "keys"

def Scalar.render : Scalar → String
  | .bool b => toString b
  | .number n => n.render
  | .string s => Json.quote s

def CustomCheck.describe (c : CustomCheck) : String :=
  "CustomCheck \x7b keyword: " ++ Text.quoted c.keyword ++ ", .. \x7d"

namespace Expr

def isCompound : Expr → Bool
  | .all _ => true
  | .any _ => true
  | _ => false

def isCall : Expr → Bool
  | .hasType _ _ => true
  | .hasOwn _ _ => true
  | .call _ _ => true
  | .custom _ _ => true
  | .unique _ _ => true
  | .matchesPattern _ _ => true
  | .inTable _ _ => true
  | _ => false

def parenthesize (needed : Bool) (text : String) : String :=
  if needed then "(" ++ text ++ ")" else text

mutual

def render : Expr → String
  | .const b => toString b
  | .present r => r.render ++ " != undefined"
  | .absent r => r.render ++ " == undefined"
  | .hasOwn r name => "has_own(" ++ r.render ++ ", " ++ Json.quote name ++ ")"
  | .hasType r check => check.render ++ "(" ++ r.render ++ ")"
  | .not e => "!" ++ parenthesize (!e.isCall) e.render
  | .all es => " && ".intercalate (renderOperands es)
  | .any es => " || ".intercalate (renderOperands es)
  | .exactlyOne es => "count([" ++ ", ".intercalate (renderEach es) ++ "]) == 1"
  | .size r measure op limit =>
    measure.render ++ "(" ++ r.render ++ ") " ++ op.render ++ " " ++ toString limit
  | .compare r op limit => r.render ++ " " ++ op.render ++ " " ++ limit.render
  | .multipleOf r divisor =>
    if divisor.exact.isSome then r.render ++ " / " ++ divisor.value.render ++ " % 1 == 0"
    else r.render ++ " % " ++ divisor.value.render ++ " == 0"
  | .matchesPattern r pattern => Name.render pattern ++ ".is_match(" ++ r.render ++ ")"
  | .equals r scalar => r.render ++ " == " ++ scalar.render
  | .inTable r table => Name.render table ++ ".contains(" ++ r.render ++ ")"
  | .unique r (some helper) => "unique_by(" ++ r.render ++ ", " ++ Name.render helper ++ ")"
  | .unique r none => "unique(" ++ r.render ++ ")"
  | .allItems r item body =>
    r.render ++ ".iter().all(|" ++ item.render ++ "| " ++ body.render ++ ")"
  | .anyItem r item body =>
    r.render ++ ".iter().any(|" ++ item.render ++ "| " ++ body.render ++ ")"
  | .allKeys r key body =>
    r.render ++ ".keys().all(|" ++ key.render ++ "| " ++ body.render ++ ")"
  | .call routine r => Name.render routine ++ "(" ++ r.render ++ ")"
  | .custom r check => check.keyword ++ "(" ++ r.render ++ ")"
termination_by structural e => e

def renderOperands : List Expr → List String
  | [] => []
  | e :: es => parenthesize e.isCompound e.render :: renderOperands es
termination_by structural es => es

def renderEach : List Expr → List String
  | [] => []
  | e :: es => e.render :: renderEach es
termination_by structural es => es

end

end Expr

end SchemaLogic
