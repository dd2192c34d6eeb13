import SchemaLogic.Instance
import SchemaLogic.Json.Equality
import SchemaLogic.Predicate.Pool
import SchemaLogic.Text.Units

/-! # Compiled schemas and their verdicts

Loop variables live in one row of slots: a loop overwrites its slot, and nothing is restored. A
routine may call only routines declared before it, which bounds every chain of calls. -/
namespace SchemaLogic

structure Predicate where
  root : Expr
  pool : Declarations
  slots : Nat

abbrev Slots := Array Instance

abbrev Verdict := Slots → Bool × Slots

namespace ValueRef

def resolve (input : Instance) (slots : Slots) : ValueRef → Instance
  | .input => input
  | .slot s => slots.getD s.index .missing
  | .property base name => (base.resolve input slots).property name
  | .index base i => (base.resolve input slots).index i
  | .member base key => (base.resolve input slots).member (slots.getD key.index .missing)

end ValueRef

namespace Instance

/-- Keys count as strings; an array passes for an object unless a plain one is asked for. -/
def hasType (i : Instance) (check : TypeCheck) : Bool :=
  match i, check with
  | .key _, .string => true
  | .value (.string _), .string => true
  | .value (.number _), .number => true
  | .value (.number _), .finite => true
  | .value (.number n), .integer => n.isInteger
  | .value (.array _), .array => true
  | .value (.array _), .object => true
  | .value (.object _), .object => true
  | .value (.object _), .plainObject => true
  | .value (.bool _), .boolean => true
  | .value .null, .null => true
  | _, _ => false

def measure? (i : Instance) : Measure → Option Nat
  | .codeUnits => i.text?.map Text.unitCount
  | .codePoints => i.text?.map String.length
  | .items => i.items?.map List.length
  | .keys => i.entries?.map Entries.size

def equalsScalar (i : Instance) : Scalar → Bool
  | .bool b => match i with
    | .value (.bool a) => a == b
    | _ => false
  | .number n => match i with
    | .value (.number m) => m.toNumeric.equals n
    | _ => false
  | .string s => i.text? == some s

def isMultipleOf (i : Instance) (d : Divisor) : Bool :=
  match i.number?, d.exact with
  | some n, some exact =>
    match Decimal.parse? n.text with
    | some decimal => decimal.isMultipleOf exact
    | none => false
  | some n, none => n.toNumeric.isMultipleOf d.value
  | none, _ => false

def inTable (i : Instance) (items : List Json) : Bool :=
  match i with
  | .value json => items.any (·.same json)
  | .key k => items.any fun item => item.string? == some k.text
  | .missing => false

/-- Custom checks see keys as strings and pass over missing values. -/
def passes (i : Instance) (check : CustomCheck) : Bool :=
  match i with
  | .missing => true
  | .value json => check.accepts json
  | .key k => check.accepts (.string k.text)

end Instance

namespace Loop

def every (slot : Slot) (body : Verdict) : List Instance → Verdict
  | [], slots => (true, slots)
  | element :: rest, slots =>
    match body (slots.setIfInBounds slot.index element) with
    | (true, slots) => every slot body rest slots
    | (false, slots) => (false, slots)

def any (slot : Slot) (body : Verdict) : List Instance → Verdict
  | [], slots => (false, slots)
  | element :: rest, slots =>
    match body (slots.setIfInBounds slot.index element) with
    | (true, slots) => (true, slots)
    | (false, slots) => any slot body rest slots

/-- The number of elements that pass lies within bounds; the loop ends when it exceeds the upper
one. -/
def count (slot : Slot) (body : Verdict) (least : Nat) (most : Option Nat) :
    Nat → List Instance → Verdict
  | n, [], slots => (least ≤ n, slots)
  | n, element :: rest, slots =>
    match body (slots.setIfInBounds slot.index element) with
    | (true, slots) =>
      if most.any (· < n + 1) then (false, slots) else count slot body least most (n + 1) rest slots
    | (false, slots) => count slot body least most n rest slots

end Loop

abbrev Routines := Name → Instance → Verdict

namespace Expr

mutual

def eval (input : Instance) (pool : Declarations) (call : Routines) : Expr → Verdict
  | .const b, slots => (b, slots)
  | .present r, slots => ((r.resolve input slots).isPresent, slots)
  | .absent r, slots => (!(r.resolve input slots).isPresent, slots)
  | .hasOwn r name, slots =>
    ((r.resolve input slots).entries?.any fun entries => (entries.get? name).isSome, slots)
  | .hasType r check, slots => ((r.resolve input slots).hasType check, slots)
  | .not e, slots =>
    match e.eval input pool call slots with
    | (b, slots) => (!b, slots)
  | .all es, slots => evalAll input pool call es slots
  | .any es, slots => evalAny input pool call es slots
  | .exactlyOne es, slots => evalOne input pool call false es slots
  | .size r measure op limit, slots =>
    (((r.resolve input slots).measure? measure).any fun n => op.holds (Ord.compare n limit), slots)
  | .compare r op limit, slots =>
    ((r.resolve input slots).number?.any fun n => (n.toNumeric.compare? limit).any op.holds, slots)
  | .multipleOf r divisor, slots => ((r.resolve input slots).isMultipleOf divisor, slots)
  | .matchesPattern r pattern, slots =>
    match pool[pattern]? with
    | some (.pattern p) => ((r.resolve input slots).text?.any p.isMatch, slots)
    | _ => (false, slots)
  | .equals r scalar, slots => ((r.resolve input slots).equalsScalar scalar, slots)
  | .inTable r table, slots =>
    match pool[table]? with
    | some (.literal (.array items)) => ((r.resolve input slots).inTable items, slots)
    | _ => (false, slots)
  | .unique r none, slots => ((r.resolve input slots).items?.any (Json.isUnique Json.same), slots)
  | .unique r (some helper), slots =>
    match pool[helper]? with
    | some .deepEqual => ((r.resolve input slots).items?.any (Json.isUnique Json.equal), slots)
    | _ => (false, slots)
  | .allItems r item body, slots =>
    match (r.resolve input slots).items? with
    | some items =>
      Loop.every item (fun slots => body.eval input pool call slots) (items.map .value) slots
    | none => (false, slots)
  | .anyItem r item body, slots =>
    match (r.resolve input slots).items? with
    | some items =>
      Loop.any item (fun slots => body.eval input pool call slots) (items.map .value) slots
    | none => (false, slots)
  | .allKeys r key body, slots =>
    match (r.resolve input slots).entries? with
    | some entries =>
      Loop.every key (fun slots => body.eval input pool call slots) (entries.keys.map .key) slots
    | none => (false, slots)
  | .call routine r, slots => call routine (r.resolve input slots) slots
  | .custom r check, slots => ((r.resolve input slots).passes check, slots)
termination_by structural e => e

def evalAll (input : Instance) (pool : Declarations) (call : Routines) : List Expr → Verdict
  | [], slots => (true, slots)
  | e :: es, slots =>
    match e.eval input pool call slots with
    | (true, slots) => evalAll input pool call es slots
    | (false, slots) => (false, slots)
termination_by structural es => es

def evalAny (input : Instance) (pool : Declarations) (call : Routines) : List Expr → Verdict
  | [], slots => (false, slots)
  | e :: es, slots =>
    match e.eval input pool call slots with
    | (true, slots) => (true, slots)
    | (false, slots) => evalAny input pool call es slots
termination_by structural es => es

def evalOne (input : Instance) (pool : Declarations) (call : Routines) (held : Bool) :
    List Expr → Verdict
  | [], slots => (held, slots)
  | e :: es, slots =>
    match e.eval input pool call slots, held with
    | (true, slots), true => (false, slots)
    | (true, slots), false => evalOne input pool call true es slots
    | (false, slots), held => evalOne input pool call held es slots
termination_by structural es => es

end

end Expr

namespace Routine

def run (input : Instance) (pool : Declarations) (call : Routines) (r : Routine)
    (items : List Json) : Verdict :=
  match r with
  | .count item body least most =>
    Loop.count item (body.eval input pool call) least most 0 (items.map .value)
  | .everyFrom start item body =>
    Loop.every item (body.eval input pool call) ((items.drop start).map .value)

/-- The routines declared before a place in the pool. Anything else, and anything but an array,
fails. -/
def below (input : Instance) (pool : Declarations) : Nat → Routines
  | 0, _, _, slots => (false, slots)
  | n + 1, name, i, slots =>
    if name = n then
      match pool[n]?, i.items? with
      | some (.routine r), some items => r.run input pool (below input pool n) items slots
      | _, _ => (false, slots)
    else below input pool n name i slots

end Routine

namespace Predicate

def evaluate (p : Predicate) (json : Option Json) : Bool :=
  let input := Instance.ofOption json
  (p.root.eval input p.pool (Routine.below input p.pool p.pool.length)
    (Array.replicate p.slots .missing)).1

def isValid (p : Predicate) (json : Json) : Bool := p.evaluate (some json)

end Predicate

end SchemaLogic
