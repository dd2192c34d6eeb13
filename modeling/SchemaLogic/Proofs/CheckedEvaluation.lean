import SchemaLogic.Proofs.Placement

/-! # Evaluation that checks what it touches

The checked evaluator gives up where a slot is out of range, where a name does not address a
declaration of the kind that is needed, and where a routine calls one that is not declared before
it. Conditions that touch nothing of that kind evaluate as without the checks. -/
namespace SchemaLogic

def Expr.mentioned (e : Expr) : List Slot :=
  (e.ref?.map ValueRef.slots).getD [] ++ e.binder?.toList

abbrev CheckedVerdict := Slots → Option (Bool × Slots)

abbrev CheckedRoutines := Name → Instance → CheckedVerdict

def ValueRef.resolve? (input : Instance) (row : Slots) : ValueRef → Option Instance
  | .input => some input
  | .slot s => row[s.index]?
  | .property base name => (base.resolve? input row).map (·.property name)
  | .index base i => (base.resolve? input row).map (·.index i)
  | .member base key => do
    let value ← base.resolve? input row
    let k ← row[key.index]?
    return value.member k

namespace Loop

def round? (slot : Slot) (body : CheckedVerdict) (x : Instance) : CheckedVerdict := fun row =>
  if slot.index < row.size then body (row.setIfInBounds slot.index x) else none

def every? (slot : Slot) (body : CheckedVerdict) : List Instance → CheckedVerdict
  | [], row => some (true, row)
  | x :: rest, row => do
    match ← round? slot body x row with
    | (true, row) => every? slot body rest row
    | (false, row) => return (false, row)

def any? (slot : Slot) (body : CheckedVerdict) : List Instance → CheckedVerdict
  | [], row => some (false, row)
  | x :: rest, row => do
    match ← round? slot body x row with
    | (true, row) => return (true, row)
    | (false, row) => any? slot body rest row

def count? (slot : Slot) (body : CheckedVerdict) (least : Nat) (most : Option Nat) :
    Nat → List Instance → CheckedVerdict
  | n, [], row => some (least ≤ n, row)
  | n, x :: rest, row => do
    match ← round? slot body x row with
    | (true, row) =>
      if most.any (· < n + 1) then return (false, row)
      else count? slot body least most (n + 1) rest row
    | (false, row) => count? slot body least most n rest row

end Loop

namespace Expr

/-- Like `look?`, but without an answer where the declaration is missing or of another kind. -/
def lookStrictly? (pool : Declarations) : Expr → Option (ValueRef × (Instance → Bool))
  | .matchesPattern r n => do
    let .pattern _ ← pool[n]? | none
    look? pool (.matchesPattern r n)
  | .inTable r n => do
    let .literal (.array _) ← pool[n]? | none
    look? pool (.inTable r n)
  | .unique r (some n) => do
    let .deepEqual ← pool[n]? | none
    look? pool (.unique r (some n))
  | e => e.look? pool

mutual

def eval? (input : Instance) (pool : Declarations) (call : CheckedRoutines) : Expr → CheckedVerdict
  | .const b, row => some (b, row)
  | .not e, row => do
    let (b, row) ← e.eval? input pool call row
    return (!b, row)
  | .all es, row => evalAll? input pool call es row
  | .any es, row => evalAny? input pool call es row
  | .exactlyOne es, row => evalOne? input pool call false es row
  | .allItems r item body, row => do
    match (← r.resolve? input row).items? with
    | some items =>
      Loop.every? item (fun row => body.eval? input pool call row) (items.map .value) row
    | none => return (false, row)
  | .anyItem r item body, row => do
    match (← r.resolve? input row).items? with
    | some items =>
      Loop.any? item (fun row => body.eval? input pool call row) (items.map .value) row
    | none => return (false, row)
  | .allKeys r key body, row => do
    match (← r.resolve? input row).entries? with
    | some entries =>
      Loop.every? key (fun row => body.eval? input pool call row) (entries.keys.map .key) row
    | none => return (false, row)
  | .call n r, row => do
    call n (← r.resolve? input row) row
  | e, row => do
    let (r, test) ← e.lookStrictly? pool
    return (test (← r.resolve? input row), row)
termination_by structural e => e

def evalAll? (input : Instance) (pool : Declarations) (call : CheckedRoutines) :
    List Expr → CheckedVerdict
  | [], row => some (true, row)
  | e :: es, row => do
    match ← e.eval? input pool call row with
    | (true, row) => evalAll? input pool call es row
    | (false, row) => return (false, row)
termination_by structural es => es

def evalAny? (input : Instance) (pool : Declarations) (call : CheckedRoutines) :
    List Expr → CheckedVerdict
  | [], row => some (false, row)
  | e :: es, row => do
    match ← e.eval? input pool call row with
    | (true, row) => return (true, row)
    | (false, row) => evalAny? input pool call es row
termination_by structural es => es

def evalOne? (input : Instance) (pool : Declarations) (call : CheckedRoutines) (held : Bool) :
    List Expr → CheckedVerdict
  | [], row => some (held, row)
  | e :: es, row => do
    match ← e.eval? input pool call row, held with
    | (true, row), true => return (false, row)
    | (true, row), false => evalOne? input pool call true es row
    | (false, row), held => evalOne? input pool call held es row
termination_by structural es => es

end

end Expr

namespace Routine

def run? (input : Instance) (pool : Declarations) (call : CheckedRoutines) (r : Routine)
    (items : List Json) : CheckedVerdict :=
  match r with
  | .count item body least most =>
    Loop.count? item (body.eval? input pool call) least most 0 (items.map .value)
  | .everyFrom start item body =>
    Loop.every? item (body.eval? input pool call) ((items.drop start).map .value)

def below? (input : Instance) (pool : Declarations) : Nat → CheckedRoutines
  | 0, _, _, _ => none
  | n + 1, name, i, row =>
    if name = n then
      match pool[n]?, i.items? with
      | some (.routine r), some items => r.run? input pool (below? input pool n) items row
      | some (.routine _), none => some (false, row)
      | _, _ => none
    else below? input pool n name i row

end Routine

def Predicate.evaluate? (p : Predicate) (json : Option Json) : Option Bool :=
  let input := Instance.ofOption json
  (p.root.eval? input p.pool (Routine.below? input p.pool p.pool.length)
    (Array.replicate p.slots .missing)).map Prod.fst

/-! ## The checks pass -/

/-- In rows that are long enough the checks pass and change nothing. -/
def Checks (limit : Nat) (checked : CheckedVerdict) (v : Verdict) : Prop :=
  ∀ row, limit ≤ row.size → checked row = some (v row) ∧ (v row).2.size = row.size

section Loops

variable {limit : Nat} {slot : Slot} {checked : CheckedVerdict} {body : Verdict}

theorem checks_round (hb : Checks limit checked body) (hl : slot.index < limit) (x : Instance)
    (row : Slots) (hs : limit ≤ row.size) :
    Loop.round? slot checked x row = some (body (row.setIfInBounds slot.index x)) ∧
      (body (row.setIfInBounds slot.index x)).2.size = row.size := by
  have hi : slot.index < row.size := by omega
  obtain ⟨he, hz⟩ := hb (row.setIfInBounds slot.index x) (by simpa using hs)
  exact ⟨by rw [Loop.round?, if_pos hi, he], by simpa using hz⟩

theorem checks_every (hb : Checks limit checked body) (hl : slot.index < limit)
    (elements : List Instance) :
    Checks limit (Loop.every? slot checked elements) (Loop.every slot body elements) := by
  induction elements with
  | nil => exact fun row _ => ⟨rfl, rfl⟩
  | cons x rest ih =>
    intro row hs
    obtain ⟨he, hz⟩ := checks_round hb hl x row hs
    rw [Loop.every?, Loop.every, he]
    rcases hr : body (row.setIfInBounds slot.index x) with ⟨b, after⟩
    have hz : after.size = row.size := by simpa [hr] using hz
    cases b
    · exact ⟨rfl, hz⟩
    · obtain ⟨he', hz'⟩ := ih after (by omega)
      exact ⟨he', hz'.trans hz⟩

theorem checks_any (hb : Checks limit checked body) (hl : slot.index < limit)
    (elements : List Instance) :
    Checks limit (Loop.any? slot checked elements) (Loop.any slot body elements) := by
  induction elements with
  | nil => exact fun row _ => ⟨rfl, rfl⟩
  | cons x rest ih =>
    intro row hs
    obtain ⟨he, hz⟩ := checks_round hb hl x row hs
    rw [Loop.any?, Loop.any, he]
    rcases hr : body (row.setIfInBounds slot.index x) with ⟨b, after⟩
    have hz : after.size = row.size := by simpa [hr] using hz
    cases b
    · obtain ⟨he', hz'⟩ := ih after (by omega)
      exact ⟨he', hz'.trans hz⟩
    · exact ⟨rfl, hz⟩

theorem checks_count (hb : Checks limit checked body) (hl : slot.index < limit) (least : Nat)
    (most : Option Nat) (elements : List Instance) (n : Nat) :
    Checks limit (Loop.count? slot checked least most n elements)
      (Loop.count slot body least most n elements) := by
  induction elements generalizing n with
  | nil => exact fun row _ => ⟨rfl, rfl⟩
  | cons x rest ih =>
    intro row hs
    obtain ⟨he, hz⟩ := checks_round hb hl x row hs
    rw [Loop.count?, Loop.count, he]
    rcases hr : body (row.setIfInBounds slot.index x) with ⟨b, after⟩
    have hz : after.size = row.size := by simpa [hr] using hz
    have next (n : Nat) := ih n after (by omega)
    cases b
    · exact ⟨(next n).1, (next n).2.trans hz⟩
    · simp only [Option.bind_eq_bind, Option.bind_some]
      split
      · exact ⟨rfl, hz⟩
      · exact ⟨(next (n + 1)).1, (next (n + 1)).2.trans hz⟩

end Loops

section Operands

variable {input : Instance} {pool : Declarations} {checked : CheckedRoutines} {call : Routines}
variable {limit : Nat} {es : List Expr}

theorem checks_all (h : ∀ e ∈ es, Checks limit (e.eval? input pool checked)
      (e.eval input pool call)) :
    Checks limit (Expr.evalAll? input pool checked es) (Expr.evalAll input pool call es) := by
  induction es with
  | nil => exact fun row _ => ⟨rfl, rfl⟩
  | cons e es ih =>
    intro row hs
    obtain ⟨he, hz⟩ := h e (by simp) row hs
    rw [Expr.evalAll?, Expr.evalAll, he]
    rcases hr : e.eval input pool call row with ⟨b, after⟩
    have hz : after.size = row.size := by simpa [hr] using hz
    cases b
    · exact ⟨rfl, hz⟩
    · obtain ⟨he', hz'⟩ := ih (fun e he => h e (.tail _ he)) after (by omega)
      exact ⟨he', hz'.trans hz⟩

theorem checks_anyOf (h : ∀ e ∈ es, Checks limit (e.eval? input pool checked)
      (e.eval input pool call)) :
    Checks limit (Expr.evalAny? input pool checked es) (Expr.evalAny input pool call es) := by
  induction es with
  | nil => exact fun row _ => ⟨rfl, rfl⟩
  | cons e es ih =>
    intro row hs
    obtain ⟨he, hz⟩ := h e (by simp) row hs
    rw [Expr.evalAny?, Expr.evalAny, he]
    rcases hr : e.eval input pool call row with ⟨b, after⟩
    have hz : after.size = row.size := by simpa [hr] using hz
    cases b
    · obtain ⟨he', hz'⟩ := ih (fun e he => h e (.tail _ he)) after (by omega)
      exact ⟨he', hz'.trans hz⟩
    · exact ⟨rfl, hz⟩

theorem checks_one (held : Bool) (h : ∀ e ∈ es, Checks limit (e.eval? input pool checked)
      (e.eval input pool call)) :
    Checks limit (Expr.evalOne? input pool checked held es)
      (Expr.evalOne input pool call held es) := by
  induction es generalizing held with
  | nil => exact fun row _ => ⟨rfl, rfl⟩
  | cons e es ih =>
    intro row hs
    obtain ⟨he, hz⟩ := h e (by simp) row hs
    rcases hr : e.eval input pool call row with ⟨b, after⟩
    rw [hr] at he
    have hz : after.size = row.size := by simpa [hr] using hz
    have next (held : Bool) := ih held (fun e he => h e (.tail _ he)) after (by omega)
    cases b <;> cases held <;>
      simp only [Expr.evalOne?, Expr.evalOne, he, hr, Option.bind_eq_bind, Option.bind_some]
    · exact ⟨(next false).1, (next false).2.trans hz⟩
    · exact ⟨(next true).1, (next true).2.trans hz⟩
    · exact ⟨(next true).1, (next true).2.trans hz⟩
    · exact ⟨rfl, hz⟩

end Operands

theorem ValueRef.resolve?_eq (input : Instance) {row : Slots} {r : ValueRef}
    (h : ∀ s ∈ r.slots, s.index < row.size) :
    r.resolve? input row = some (r.resolve input row) := by
  have read (s : Slot) (hs : s.index < row.size) :
      row[s.index]? = some (row.getD s.index .missing) := by
    simp [hs]
  induction r with
  | input => rfl
  | slot s => exact read s (h s (by simp [slots]))
  | property base name ih => rw [resolve?, ih h, Option.map_some, resolve]
  | index base i ih => rw [resolve?, ih h, Option.map_some, resolve]
  | member base key ih =>
    rw [resolve?, ih fun s hs => h s (.tail _ hs), read key (h key (by simp [slots]))]
    rfl

namespace Expr

/-- What a condition touches by itself exists and is of the right kind. -/
structure Touches (names : Declarations) (limit : Nat) (e : Expr) : Prop where
  named : e.Named names
  below : ∀ s ∈ e.mentioned, s.index < limit

theorem lookStrictly?_eq {pool : Declarations} {e : Expr} (h : e.Named pool) :
    e.lookStrictly? pool = e.look? pool := by
  cases e with
  | matchesPattern r n =>
    obtain ⟨p, hn⟩ := h
    simp [lookStrictly?, hn]
  | inTable r n =>
    obtain ⟨items, hn⟩ := h
    simp [lookStrictly?, hn]
  | unique r helper =>
    cases helper with
    | none => rfl
    | some n =>
      have hn : pool[n]? = some .deepEqual := h
      simp [lookStrictly?, hn]
  | _ => rfl

variable {input : Instance} {pool names : Declarations} {checked : CheckedRoutines}
variable {call : Routines}
variable {limit : Nat} {visible : List Slot} {e : Expr}

theorem Touches.resolve? (h : e.Touches names limit) {r : ValueRef} (hr : e.ref? = some r)
    (input : Instance) {row : Slots} (hs : limit ≤ row.size) :
    r.resolve? input row = some (r.resolve input row) :=
  ValueRef.resolve?_eq input fun s hm =>
    Nat.lt_of_lt_of_le (h.below s (by simp [mentioned, hr, hm])) hs

theorem Touches.binder (h : e.Touches names limit) {s : Slot} (hs : e.binder? = some s) :
    s.index < limit :=
  h.below s (by simp [mentioned, hs])

theorem eval?_look {r : ValueRef} {test : Instance → Bool} (h : e.look? pool = some (r, test))
    (hn : e.Named pool) {row : Slots} {i : Instance} (hi : r.resolve? input row = some i) :
    e.eval? input pool checked row = some (test i, row) := by
  have hl := (lookStrictly?_eq hn).trans h
  cases e with
  | const | not | all | any | exactlyOne | allItems | anyItem | allKeys | call => simp [look?] at h
  | _ => simp [eval?, hl, hi]

def CallsCheck (names : Declarations) (limit : Nat) (checked : CheckedRoutines) (call : Routines) :
    Prop :=
  ∀ (n : Name) f, names[n]? = some (.routine f) → ∀ i, Checks limit (checked n i) (call n i)

theorem eval?_checks (input : Instance) (hp : names <+: pool)
    (hc : CallsCheck names limit checked call)
    (h : Everywhere (fun _ => Touches names limit) visible e) :
    Checks limit (e.eval? input pool checked) (e.eval input pool call) := by
  induction h with
  | @intro visible e here _ ih =>
    have settle (r : ValueRef) (hr : e.ref? = some r) {row : Slots} (hs : limit ≤ row.size) :=
      here.resolve? hr input hs
    rcases hl : e.look? pool with _ | ⟨r, test⟩
    case some =>
      intro row hs
      have hr := settle r (ref?_look hl).1 hs
      rw [eval?_look hl (here.named.extended hp) hr, eval_look hl]
      exact ⟨rfl, rfl⟩
    cases e with
    | const b => exact fun row _ => ⟨rfl, rfl⟩
    | not e =>
      intro row hs
      obtain ⟨he, hz⟩ := ih e (by simp [operands]) row hs
      exact ⟨by rw [eval?, eval, he]; rfl, hz⟩
    | all es =>
      intro row hs
      rw [eval?, eval]
      exact checks_all ih row hs
    | any es =>
      intro row hs
      rw [eval?, eval]
      exact checks_anyOf ih row hs
    | exactlyOne es =>
      intro row hs
      rw [eval?, eval]
      exact checks_one false ih row hs
    | allItems r item body =>
      have hb := ih body (by simp [operands])
      intro row hs
      rw [eval?, eval, settle r rfl hs, Option.bind_eq_bind, Option.bind_some]
      cases (r.resolve input row).items? with
      | none => exact ⟨rfl, rfl⟩
      | some items => exact checks_every hb (here.binder rfl) (items.map .value) row hs
    | anyItem r item body =>
      have hb := ih body (by simp [operands])
      intro row hs
      rw [eval?, eval, settle r rfl hs, Option.bind_eq_bind, Option.bind_some]
      cases (r.resolve input row).items? with
      | none => exact ⟨rfl, rfl⟩
      | some items => exact checks_any hb (here.binder rfl) (items.map .value) row hs
    | allKeys r key body =>
      have hb := ih body (by simp [operands])
      intro row hs
      rw [eval?, eval, settle r rfl hs, Option.bind_eq_bind, Option.bind_some]
      cases (r.resolve input row).entries? with
      | none => exact ⟨rfl, rfl⟩
      | some entries => exact checks_every hb (here.binder rfl) (entries.keys.map .key) row hs
    | call n r =>
      obtain ⟨f, hf⟩ := here.named
      intro row hs
      rw [eval?, eval, settle r rfl hs, Option.bind_eq_bind, Option.bind_some]
      exact hc n f hf _ row hs
    | unique r helper =>
      cases helper with
      | none => simp [look?] at hl
      | some n => simp only [look?] at hl; split at hl <;> simp at hl
    | matchesPattern r n => simp only [look?] at hl; split at hl <;> simp at hl
    | inTable r n => simp only [look?] at hl; split at hl <;> simp at hl
    | _ => simp [look?] at hl

end Expr

namespace Routine

theorem below?_of_lt {input : Instance} {pool : Declarations} {n name : Nat} {f : Routine}
    (h : name < n) (hf : pool[name]? = some (.routine f)) (i : Instance) (row : Slots) :
    below? input pool n name i row =
      match i.items? with
      | some items => f.run? input pool (below? input pool name) items row
      | none => some (false, row) := by
  induction n with
  | zero => omega
  | succ n ih =>
    rw [below?]
    split
    · next he =>
      subst he
      rw [hf]
      cases i.items? <;> rfl
    · next he => exact ih (Nat.lt_of_le_of_ne (Nat.le_of_lt_succ h) he)

theorem checks_run {input : Instance} {pool : Declarations} {checked : CheckedRoutines}
    {call : Routines} {limit : Nat} {f : Routine}
    (hb : Checks limit (f.body.eval? input pool checked) (f.body.eval input pool call))
    (hl : f.item.index < limit) (items : List Json) :
    Checks limit (f.run? input pool checked items) (f.run input pool call items) := by
  cases f with
  | count item body least most => exact checks_count hb hl least most (items.map .value) 0
  | everyFrom start item body => exact checks_every hb hl ((items.drop start).map .value)

theorem below?_checks {pool : Declarations} {limit : Nat}
    (h : ∀ (n : Name) f, pool[n]? = some (.routine f) → f.item.index < limit ∧
      Expr.Everywhere (fun _ => Expr.Touches (pool.take n) limit) [f.item] f.body)
    (input : Instance) (n m : Nat) (hm : n < m) {f : Routine}
    (hf : pool[n]? = some (.routine f)) (i : Instance) :
    Checks limit (below? input pool m n i) (below input pool m n i) := by
  -- By induction on the name: a body calls earlier routines only.
  induction n using Nat.strongRecOn generalizing m f i with
  | ind n ih =>
    obtain ⟨hl, hbody⟩ := h n f hf
    have calls :
        Expr.CallsCheck (pool.take n) limit (below? input pool n) (below input pool n) := by
      intro k g hg i
      obtain ⟨hk, hg⟩ : k < n ∧ pool[k]? = some (.routine g) := by
        simpa [List.getElem?_take] using hg
      exact ih k hk n hk hg i
    have hp : pool.take n <+: pool := ⟨pool.drop n, List.take_append_drop n pool⟩
    have hb := Expr.eval?_checks input hp calls hbody
    intro row hs
    rw [below?_of_lt hm hf, below_of_lt hm hf]
    cases i.items? with
    | none => exact ⟨rfl, rfl⟩
    | some items => exact checks_run hb hl items row hs

end Routine

end SchemaLogic
