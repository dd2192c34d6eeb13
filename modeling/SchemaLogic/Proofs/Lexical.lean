import Mathlib.Logic.Function.Basic
import SchemaLogic.Predicate.Basic
import SchemaLogic.Proofs.Occurrence

/-! # Lexical evaluation

Here a loop extends an immutable environment for its body only, and a routine sees nothing but
its own item. -/
namespace SchemaLogic

/-- The values of loop variables, by place. -/
abbrev Env := Nat → Instance

abbrev Judge := Name → Instance → Bool

namespace ValueRef

def value (input : Instance) (env : Env) : ValueRef → Instance
  | .input => input
  | .slot s => env s.index
  | .property base name => (base.value input env).property name
  | .index base i => (base.value input env).index i
  | .member base key => (base.value input env).member (env key.index)

def slots : ValueRef → List Slot
  | .input => []
  | .slot s => [s]
  | .property base _ => base.slots
  | .index base _ => base.slots
  | .member base key => key :: base.slots

theorem value_congr {r : ValueRef} {input : Instance} {env other : Env}
    (h : ∀ s ∈ r.slots, env s.index = other s.index) :
    r.value input env = r.value input other := by
  induction r with
  | input => rfl
  | slot s => exact h s (by simp [slots])
  | property base name ih => simp only [value, ih h]
  | index base i ih => simp only [value, ih h]
  | member base key ih =>
    simp only [value, ih fun s hs => h s (.tail _ hs), h key (by simp [slots])]

theorem resolve_eq_value (r : ValueRef) (input : Instance) (row : Slots) :
    r.resolve input row = r.value input fun i => row.getD i .missing := by
  induction r with
  | input => rfl
  | slot s => rfl
  | property base name ih => simp only [resolve, value, ih]
  | index base i ih => simp only [resolve, value, ih]
  | member base key ih => simp only [resolve, value, ih]

end ValueRef

namespace Routine

def item : Routine → Slot
  | .count item _ _ _ => item
  | .everyFrom _ item _ => item

def body : Routine → Expr
  | .count _ body _ _ => body
  | .everyFrom _ _ body => body

def within (least : Nat) (most : Option Nat) (n : Nat) : Bool :=
  least ≤ n && most.all fun m => n ≤ m

/-- What a routine asks of an array, given what its body asks of an item. -/
def asks (accepts : Json → Bool) : Routine → List Json → Bool
  | .count _ _ least most, items => within least most (items.countP accepts)
  | .everyFrom start _ _, items => (items.drop start).all accepts

end Routine

namespace Expr

/-- The value that a condition without operands looks at, and what it says of it. -/
def look? (pool : Declarations) : Expr → Option (ValueRef × (Instance → Bool))
  | .present r => some (r, Instance.isPresent)
  | .absent r => some (r, fun i => !i.isPresent)
  | .hasOwn r name => some (r, fun i => i.entries?.any fun entries => (entries.get? name).isSome)
  | .hasType r check => some (r, fun i => i.hasType check)
  | .size r measure op limit =>
    some (r, fun i => (i.measure? measure).any fun n => op.holds (Ord.compare n limit))
  | .compare r op limit =>
    some (r, fun i => i.number?.any fun n => (n.toNumeric.compare? limit).any op.holds)
  | .multipleOf r divisor => some (r, fun i => i.isMultipleOf divisor)
  | .matchesPattern r pattern =>
    match pool[pattern]? with
    | some (.pattern p) => some (r, fun i => i.text?.any p.isMatch)
    | _ => some (r, fun _ => false)
  | .equals r scalar => some (r, fun i => i.equalsScalar scalar)
  | .inTable r table =>
    match pool[table]? with
    | some (.literal (.array items)) => some (r, fun i => i.inTable items)
    | _ => some (r, fun _ => false)
  | .unique r none => some (r, fun i => i.items?.any (Json.isUnique Json.same))
  | .unique r (some helper) =>
    match pool[helper]? with
    | some .deepEqual => some (r, fun i => i.items?.any (Json.isUnique Json.equal))
    | _ => some (r, fun _ => false)
  | .custom r check => some (r, fun i => i.passes check)
  | _ => none

mutual

def holds (input : Instance) (pool : Declarations) (call : Judge) : Expr → Env → Bool
  | .const b, _ => b
  | .not e, env => !e.holds input pool call env
  | .all es, env => (truths input pool call es env).all id
  | .any es, env => (truths input pool call es env).any id
  | .exactlyOne es, env => (truths input pool call es env).count true == 1
  | .allItems r item body, env =>
    (r.value input env).items?.any fun items => items.all fun x =>
      body.holds input pool call (Function.update env item.index (.value x))
  | .anyItem r item body, env =>
    (r.value input env).items?.any fun items => items.any fun x =>
      body.holds input pool call (Function.update env item.index (.value x))
  | .allKeys r key body, env =>
    (r.value input env).entries?.any fun entries => entries.keys.all fun k =>
      body.holds input pool call (Function.update env key.index (.key k))
  | .call routine r, env => call routine (r.value input env)
  | e, env => (e.look? pool).any fun (r, test) => test (r.value input env)
termination_by structural e => e

def truths (input : Instance) (pool : Declarations) (call : Judge) : List Expr → Env → List Bool
  | [], _ => []
  | e :: es, env => e.holds input pool call env :: truths input pool call es env
termination_by structural es => es

end

@[simp] theorem truths_eq (input : Instance) (pool : Declarations) (call : Judge) (es : List Expr)
    (env : Env) : truths input pool call es env = es.map (·.holds input pool call env) := by
  induction es with
  | nil => rfl
  | cons e es ih => simp [truths, ih]

theorem holds_congr_call {input : Instance} {pool : Declarations} {call other : Judge}
    {visible : List Slot} {e : Expr}
    (h : Everywhere (fun _ e => ∀ n r, e = .call n r → ∀ i, call n i = other n i) visible e)
    (env : Env) : e.holds input pool call env = e.holds input pool other env := by
  induction h generalizing env with
  | @intro visible e here _ ih =>
    cases e with
    | not e => simp only [holds, ih e (by simp [operands])]
    | all es | any es | exactlyOne es =>
      have hm : es.map (·.holds input pool call env) = es.map (·.holds input pool other env) :=
        List.map_congr_left fun e he => ih e he env
      simp only [holds, truths_eq, hm]
    | allItems r s body | anyItem r s body | allKeys r s body =>
      simp only [holds, ih body (by simp [operands])]
    | call n r => exact here n r rfl _
    | _ => rfl

section Look

variable {input : Instance} {pool : Declarations} {e : Expr} {r : ValueRef} {test : Instance → Bool}

theorem holds_look (h : e.look? pool = some (r, test)) (call : Judge) (env : Env) :
    e.holds input pool call env = test (r.value input env) := by
  cases e <;> simp_all [holds, look?]

theorem eval_look (h : e.look? pool = some (r, test)) (call : Routines) (row : Slots) :
    e.eval input pool call row = (test (r.resolve input row), row) := by
  revert h
  fun_cases look? pool e <;> intro h <;> cases h <;> simp_all [eval]

theorem ref?_look (h : e.look? pool = some (r, test)) :
    e.ref? = some r ∧ e.operands = [] ∧ e.binder? = none ∧ ∀ n r, e ≠ .call n r := by
  revert h
  fun_cases look? pool e <;> intro h <;> cases h <;> simp [ref?, operands, binder?]

end Look

end Expr

namespace Routine

def judges (input : Instance) (pool : Declarations) (call : Judge) (r : Routine)
    (items : List Json) : Bool :=
  r.asks (fun x => r.body.holds input pool call
    (Function.update (fun _ => .missing) r.item.index (.value x))) items

def judgesBelow (input : Instance) (pool : Declarations) : Nat → Judge
  | 0, _, _ => false
  | n + 1, name, i =>
    if name = n then
      match pool[n]?, i.items? with
      | some (.routine r), some items => r.judges input pool (judgesBelow input pool n) items
      | _, _ => false
    else judgesBelow input pool n name i

theorem judgesBelow_of_lt {input : Instance} {pool : Declarations} {n name : Nat} {r : Routine}
    (h : name < n) (hr : pool[name]? = some (.routine r)) (i : Instance) :
    judgesBelow input pool n name i =
      i.items?.any (r.judges input pool (judgesBelow input pool name)) := by
  induction n with
  | zero => omega
  | succ n ih =>
    rw [judgesBelow]
    split
    · next he =>
      subst he
      rw [hr]
      cases i.items? <;> rfl
    · next he => exact ih (Nat.lt_of_le_of_ne (Nat.le_of_lt_succ h) he)

theorem below_of_lt {input : Instance} {pool : Declarations} {n name : Nat} {r : Routine}
    (h : name < n) (hr : pool[name]? = some (.routine r)) (i : Instance) (row : Slots) :
    below input pool n name i row =
      match i.items? with
      | some items => r.run input pool (below input pool name) items row
      | none => (false, row) := by
  induction n with
  | zero => omega
  | succ n ih =>
    rw [below]
    split
    · next he =>
      subst he
      rw [hr]
      cases i.items? <;> rfl
    · next he => exact ih (Nat.lt_of_le_of_ne (Nat.le_of_lt_succ h) he)

end Routine

def Declarations.judge (pool : Declarations) (input : Instance) : Judge :=
  Routine.judgesBelow input pool pool.length

/-- What a condition says in an environment, with the declarations of a pool. -/
def Expr.truth (e : Expr) (pool : Declarations) (input : Instance) (env : Env) : Bool :=
  e.holds input pool (pool.judge input) env

end SchemaLogic
