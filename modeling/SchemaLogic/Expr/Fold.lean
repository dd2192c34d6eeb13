import SchemaLogic.Expr.Basic

/-! # Constructors that fold constants and flatten nested operators -/
namespace SchemaLogic.Expr

/-- The operands of a conjunction, or nothing if one of them is false. -/
def conjuncts? : List Expr → Option (List Expr)
  | [] => some []
  | .const true :: es => conjuncts? es
  | .const false :: _ => none
  | .all inner :: es => (conjuncts? es).map (inner ++ ·)
  | e :: es => (conjuncts? es).map (e :: ·)

def disjuncts? : List Expr → Option (List Expr)
  | [] => some []
  | .const false :: es => disjuncts? es
  | .const true :: _ => none
  | .any inner :: es => (disjuncts? es).map (inner ++ ·)
  | e :: es => (disjuncts? es).map (e :: ·)

def collapse (neutral : Bool) (wrap : List Expr → Expr) : List Expr → Expr
  | [] => .const neutral
  | [e] => e
  | es => wrap es

def conj (es : List Expr) : Expr :=
  match conjuncts? es with
  | some operands => collapse true .all operands
  | none => .const false

def disj (es : List Expr) : Expr :=
  match disjuncts? es with
  | some operands => collapse false .any operands
  | none => .const true

def negate : Expr → Expr
  | .const b => .const !b
  | .not e => e
  | .present r => .absent r
  | .absent r => .present r
  | e => .not e

def isConst : Expr → Bool
  | .const _ => true
  | _ => false

/-- With one operand true the others have to fail; with two true none is the only one. -/
def one (es : List Expr) : Expr :=
  let operands := es.filter fun e => !e.isConst
  match es.countP isTrue with
  | 0 => collapse false .exactlyOne operands
  | 1 => conj (operands.map negate)
  | _ => .const false

/-- A condition on every item that never holds leaves the empty array. -/
def everyItem (r : ValueRef) (item : Slot) : Expr → Expr
  | .const true => .const true
  | .const false => .size r .items .eq 0
  | body => .allItems r item body

def someItem (r : ValueRef) (item : Slot) : Expr → Expr
  | .const false => .const false
  | .const true => .size r .items .gt 0
  | body => .anyItem r item body

def everyKey (r : ValueRef) (key : Slot) : Expr → Expr
  | .const true => .const true
  | .const false => .size r .keys .eq 0
  | body => .allKeys r key body

end SchemaLogic.Expr
