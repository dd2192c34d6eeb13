import SchemaLogic.Expr.Fold

/-! # Statements about every condition inside a condition -/
namespace SchemaLogic.Expr

def operands : Expr → List Expr
  | .not e => [e]
  | .all es => es
  | .any es => es
  | .exactlyOne es => es
  | .allItems _ _ body => [body]
  | .anyItem _ _ body => [body]
  | .allKeys _ _ body => [body]
  | _ => []

def binder? : Expr → Option Slot
  | .allItems _ item _ => some item
  | .anyItem _ item _ => some item
  | .allKeys _ key _ => some key
  | _ => none

def ref? : Expr → Option ValueRef
  | .present r => some r
  | .absent r => some r
  | .hasOwn r _ => some r
  | .hasType r _ => some r
  | .size r _ _ _ => some r
  | .compare r _ _ => some r
  | .multipleOf r _ => some r
  | .matchesPattern r _ => some r
  | .equals r _ => some r
  | .inTable r _ => some r
  | .unique r _ => some r
  | .allItems r _ _ => some r
  | .anyItem r _ _ => some r
  | .allKeys r _ _ => some r
  | .call _ r => some r
  | .custom r _ => some r
  | _ => none

/-- The loop variables that are visible inside a condition, given those visible around it. -/
def scope (e : Expr) (visible : List Slot) : List Slot := e.binder?.toList ++ visible

mutual

def bound : Expr → List Nat
  | .not e => e.bound
  | .all es => boundEach es
  | .any es => boundEach es
  | .exactlyOne es => boundEach es
  | .allItems _ item body => item.index :: body.bound
  | .anyItem _ item body => item.index :: body.bound
  | .allKeys _ key body => key.index :: body.bound
  | _ => []
termination_by structural e => e

def boundEach : List Expr → List Nat
  | [] => []
  | e :: es => e.bound ++ boundEach es
termination_by structural es => es

end

@[simp] theorem boundEach_eq (es : List Expr) : boundEach es = es.flatMap bound := by
  induction es with
  | nil => rfl
  | cons e es ih => simp [boundEach, ih]

/-- A property of a condition and the loop variables visible at it holds wherever a condition
stands inside the given one. -/
inductive Everywhere (P : List Slot → Expr → Prop) : List Slot → Expr → Prop where
  | intro {visible e} (here : P visible e)
      (inside : ∀ x ∈ e.operands, Everywhere P (e.scope visible) x) : Everywhere P visible e

namespace Everywhere

variable {P Q : List Slot → Expr → Prop} {visible : List Slot} {e : Expr}

theorem here (h : Everywhere P visible e) : P visible e := by
  cases h
  assumption

theorem inside (h : Everywhere P visible e) :
    ∀ x ∈ e.operands, Everywhere P (e.scope visible) x := by
  cases h
  assumption

theorem leaf (h : P visible e) (he : e.operands = []) : Everywhere P visible e :=
  .intro h (by simp [he])

theorem transport {R : List Slot → List Slot → Prop}
    (binds : ∀ {u v e}, R u v → P u e → R (e.scope u) (e.scope v))
    (moves : ∀ {u v e}, R u v → P u e → Q v e)
    (h : Everywhere P visible e) {other : List Slot} (hr : R visible other) :
    Everywhere Q other e := by
  induction h generalizing other with
  | intro here _ ih => exact .intro (moves hr here) fun x hx => ih x hx (binds hr here)

theorem mono (h : Everywhere P visible e) (hpq : ∀ {u e}, P u e → Q u e) :
    Everywhere Q visible e :=
  h.transport (R := Eq) (fun hr _ => by rw [hr]) (fun hr hp => hr ▸ hpq hp) rfl

end Everywhere

/-- A property that says nothing about constants and connectives, and the same about the presence
and the absence of a value. -/
structure Transparent (P : List Slot → Expr → Prop) : Prop where
  const : ∀ u b, P u (.const b)
  all : ∀ u es, P u (.all es)
  any : ∀ u es, P u (.any es)
  exactlyOne : ∀ u es, P u (.exactlyOne es)
  not : ∀ u e, P u (.not e)
  presence : ∀ u r, P u (.present r) ↔ P u (.absent r)

end SchemaLogic.Expr
