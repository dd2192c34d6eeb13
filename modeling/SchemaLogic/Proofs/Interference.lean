import SchemaLogic.Proofs.Folding
import SchemaLogic.Proofs.SlotMachine

/-! # What conditions read and write

All loops share one row of slots, so evaluating a condition can disturb another one that reads a
loop variable bound inside it. Apart from that, conditions are judged one by one: a condition writes
the loop variables that it binds and nothing else, and its verdict depends on those that it reads
and on nothing else. Nothing here asks that conditions are folded or come from a schema. -/
namespace SchemaLogic

namespace Expr

/-- A condition looks at a loop variable outside the loops that bind it, by itself or in a routine
that it calls. -/
inductive Reads (pool : Declarations) : Expr → Nat → Prop where
  | here {e r s} (hr : e.ref? = some r) (hs : s ∈ r.slots) : Reads pool e s.index
  | inside {e x i} (hx : x ∈ e.operands) (hi : ∀ s, e.binder? = some s → i ≠ s.index)
      (h : Reads pool x i) : Reads pool e i
  | called {n r f i} (hf : pool[n]? = some (.routine f)) (hi : i ≠ f.item.index)
      (h : Reads pool f.body i) : Reads pool (.call n r) i

/-- A loop inside a condition, or in a routine that it calls, binds a loop variable. -/
inductive Writes (pool : Declarations) : Expr → Nat → Prop where
  | here {e s} (hs : e.binder? = some s) : Writes pool e s.index
  | inside {e x i} (hx : x ∈ e.operands) (h : Writes pool x i) : Writes pool e i
  | item {n r f} (hf : pool[n]? = some (.routine f)) : Writes pool (.call n r) f.item.index
  | called {n r f i} (hf : pool[n]? = some (.routine f)) (h : Writes pool f.body i) :
      Writes pool (.call n r) i

variable {pool : Declarations} {e : Expr} {i : Nat}

theorem reads_iff (h : ∀ n r, e ≠ .call n r) :
    e.Reads pool i ↔ (∃ r, e.ref? = some r ∧ ∃ s ∈ r.slots, s.index = i) ∨
      (∀ s, e.binder? = some s → i ≠ s.index) ∧ ∃ x ∈ e.operands, x.Reads pool i := by
  constructor
  · rintro (⟨hr, hs⟩ | ⟨hx, hi, hreads⟩ | _)
    · exact .inl ⟨_, hr, _, hs, rfl⟩
    · exact .inr ⟨hi, _, hx, hreads⟩
    · exact absurd rfl (h _ _)
  · rintro (⟨r, hr, s, hs, rfl⟩ | ⟨hi, x, hx, hreads⟩)
    · exact .here hr hs
    · exact .inside hx hi hreads

theorem writes_iff (h : ∀ n r, e ≠ .call n r) :
    e.Writes pool i ↔ (∃ s, e.binder? = some s ∧ s.index = i) ∨
      ∃ x ∈ e.operands, x.Writes pool i := by
  constructor
  · rintro (hs | ⟨hx, hwrites⟩ | _ | _)
    · exact .inl ⟨_, hs, rfl⟩
    · exact .inr ⟨_, hx, hwrites⟩
    · exact absurd rfl (h _ _)
    · exact absurd rfl (h _ _)
  · rintro (⟨s, hs, rfl⟩ | ⟨x, hx, hwrites⟩)
    · exact .here hs
    · exact .inside hx hwrites

/-- Neither of two conditions reads a loop variable that is bound inside the other one. -/
def Apart (pool : Declarations) (e f : Expr) : Prop :=
  ∀ i, (f.Reads pool i → ¬e.Writes pool i) ∧ (e.Reads pool i → ¬f.Writes pool i)

theorem Apart.symm {f : Expr} (h : e.Apart pool f) : f.Apart pool e :=
  fun i => (h i).symm

theorem sizeOf_operand {e x : Expr} (h : x ∈ e.operands) : sizeOf x < sizeOf e := by
  cases e with
  | all es | any es | exactlyOne es =>
    have := List.sizeOf_lt_of_mem (show x ∈ es from h)
    simp only [all.sizeOf_spec, any.sizeOf_spec, exactlyOne.sizeOf_spec]
    omega
  | not e | allItems r s e | anyItem r s e | allKeys r s e =>
    obtain rfl : x = e := by simpa [operands] using h
    simp only [not.sizeOf_spec, allItems.sizeOf_spec, anyItem.sizeOf_spec, allKeys.sizeOf_spec]
    omega
  | _ => cases h

theorem induction {P : Expr → Prop} (step : ∀ e, (∀ x ∈ e.operands, P x) → P e) (e : Expr) : P e :=
  step e fun x _ => induction step x
termination_by sizeOf e
decreasing_by exact sizeOf_operand ‹_›

end Expr

/-! ## Verdicts one after the other -/

namespace Verdict

def give (b : Bool) : Verdict := fun row => (b, row)

def andThen (v : Verdict) (next : Bool → Verdict) : Verdict := fun row => next (v row).1 (v row).2

def about {α : Type} (x : Option α) (f : α → Verdict) : Verdict := x.elim (give false) f

end Verdict

open Verdict

namespace Loop

variable (slot : Slot) (body : Verdict) (x : Instance) (rest : List Instance)

theorem every_cons : every slot body (x :: rest) =
    andThen (fun row => body (row.setIfInBounds slot.index x)) fun b =>
      if b then every slot body rest else give false := by
  funext row
  rw [every]
  split <;> simp [andThen, give, *]

theorem any_cons : any slot body (x :: rest) =
    andThen (fun row => body (row.setIfInBounds slot.index x)) fun b =>
      if b then give true else any slot body rest := by
  funext row
  rw [any]
  split <;> simp [andThen, give, *]

theorem count_cons (least : Nat) (most : Option Nat) (n : Nat) :
    count slot body least most n (x :: rest) =
      andThen (fun row => body (row.setIfInBounds slot.index x)) fun b =>
        if b then
          if most.any (· < n + 1) then give false else count slot body least most (n + 1) rest
        else count slot body least most n rest := by
  funext row
  rw [count]
  split
  · split <;> simp [andThen, give, *]
  · simp [andThen, *]

end Loop

namespace Expr

variable (input : Instance) (pool : Declarations) (call : Routines) (e : Expr) (es : List Expr)

/-- A connective goes on as long as its operands give the constant that it drops. -/
theorem eval_connective_cons (b : Bool) : (connective b (e :: es)).eval input pool call =
    andThen (e.eval input pool call) fun c =>
      if c = b then (connective b es).eval input pool call else give !b := by
  funext row
  cases b
  · change evalAny input pool call (e :: es) row = _
    rw [evalAny]
    split <;> simp [andThen, give, connective, eval, *]
  · change evalAll input pool call (e :: es) row = _
    rw [evalAll]
    split <;> simp [andThen, give, connective, eval, *]

theorem eval_connective_nil (b : Bool) : (connective b []).eval input pool call = give b := by
  cases b <;> rfl

theorem eval_connective_single (b : Bool) :
    (connective b [e]).eval input pool call = e.eval input pool call := by
  rw [eval_connective_cons, eval_connective_nil]
  funext row
  rcases he : e.eval input pool call row with ⟨c, after⟩
  cases b <;> cases c <;> simp [andThen, give, he]

theorem eval_allItems (r : ValueRef) (s : Slot) : (allItems r s e).eval input pool call = fun row =>
    about (r.resolve input row).items?
      (fun items => Loop.every s (e.eval input pool call) (items.map .value)) row := by
  funext row
  rw [eval]
  cases (r.resolve input row).items? <;> rfl

theorem eval_anyItem (r : ValueRef) (s : Slot) : (anyItem r s e).eval input pool call = fun row =>
    about (r.resolve input row).items?
      (fun items => Loop.any s (e.eval input pool call) (items.map .value)) row := by
  funext row
  rw [eval]
  cases (r.resolve input row).items? <;> rfl

theorem eval_allKeys (r : ValueRef) (s : Slot) : (allKeys r s e).eval input pool call = fun row =>
    about (r.resolve input row).entries?
      (fun entries => Loop.every s (e.eval input pool call) (entries.keys.map .key)) row := by
  funext row
  rw [eval]
  cases (r.resolve input row).entries? <;> rfl

theorem evalOne_cons (held : Bool) : evalOne input pool call held (e :: es) =
    andThen (e.eval input pool call) fun c =>
      if c then if held then give false else evalOne input pool call true es
      else evalOne input pool call held es := by
  funext row
  rcases he : e.eval input pool call row with ⟨c, after⟩
  cases c <;> cases held <;> simp [evalOne, andThen, give, he]

end Expr

/-! ## The slots that a verdict depends on and the slots that it changes -/

structure SameAt (live : Nat → Prop) (row other : Slots) : Prop where
  size : row.size = other.size
  slots : ∀ i, live i → row.getD i .missing = other.getD i .missing

/-- A verdict changes only the slots that it writes, and two rows that look the same in the slots
that it reads get the same verdict and look as much the same after it. -/
structure Footprint (reads writes : Nat → Prop) (v : Verdict) : Prop where
  size : ∀ row, (v row).2.size = row.size
  keeps : ∀ row i, ¬writes i → (v row).2.getD i .missing = row.getD i .missing
  depends : ∀ live : Nat → Prop, (∀ i, reads i → live i) → ∀ row other, SameAt live row other →
    (v row).1 = (v other).1 ∧ SameAt live (v row).2 (v other).2

theorem getD_set_of_ne (row : Slots) {i j : Nat} (x : Instance) (h : j ≠ i) :
    (row.setIfInBounds i x).getD j .missing = row.getD j .missing := by
  simp [Array.getD_eq_getD_getElem?, h.symm]

theorem SameAt.set {live : Nat → Prop} {row other : Slots} (h : SameAt live row other) (i : Nat)
    (x : Instance) :
    SameAt (fun j => j = i ∨ live j) (row.setIfInBounds i x) (other.setIfInBounds i x) := by
  refine ⟨by simpa using h.size, fun j hj => ?_⟩
  by_cases hi : j = i
  · subst hi
    simp [Array.getD_eq_getD_getElem?, Array.getElem?_setIfInBounds, h.size]
  · rw [getD_set_of_ne row x hi, getD_set_of_ne other x hi]
    exact h.slots j (hj.resolve_left hi)

namespace Footprint

variable {reads writes : Nat → Prop} {v : Verdict}

theorem give (b : Bool) : Footprint reads writes (Verdict.give b) :=
  ⟨fun _ => rfl, fun _ _ _ => rfl, fun _ _ _ _ h => ⟨rfl, h⟩⟩

theorem andThen (h : Footprint reads writes v) {next : Bool → Verdict}
    (k : ∀ b, Footprint reads writes (next b)) :
    Footprint reads writes (Verdict.andThen v next) where
  size row := ((k _).size _).trans (h.size row)
  keeps row i hi := ((k _).keeps _ i hi).trans (h.keeps row i hi)
  depends live hl row other hs := by
    obtain ⟨hb, hr⟩ := h.depends live hl row other hs
    simp only [Verdict.andThen, ← hb]
    exact (k _).depends live hl _ _ hr

theorem about {α : Type} {x : Option α} {f : α → Verdict}
    (h : ∀ a, Footprint reads writes (f a)) : Footprint reads writes (Verdict.about x f) := by
  cases x with
  | none => exact .give false
  | some a => exact h a

theorem along {input : Instance} {r : ValueRef} (hr : ∀ s ∈ r.slots, reads s.index)
    {f : Instance → Verdict} (h : ∀ i, Footprint reads writes (f i)) :
    Footprint reads writes fun row => f (r.resolve input row) row where
  size row := (h _).size row
  keeps row := (h _).keeps row
  depends live hl row other hs := by
    have same : r.resolve input row = r.resolve input other := by
      rw [ValueRef.resolve_eq_value, ValueRef.resolve_eq_value]
      exact ValueRef.value_congr fun s hm => hs.slots s.index (hl _ (hr s hm))
    simp only [same]
    exact (h _).depends live hl row other hs

section Loops

variable {slot : Slot} {body : Verdict}
variable (h : Footprint (fun i => i = slot.index ∨ reads i) writes body) (hw : writes slot.index)
include h hw

/-- A round of a loop writes the loop variable first, so the body finds the same value there. -/
theorem round (x : Instance) :
    Footprint reads writes fun row => body (row.setIfInBounds slot.index x) where
  size row := by rw [h.size, Array.size_setIfInBounds]
  keeps row i hi := by
    rw [h.keeps _ i hi, getD_set_of_ne row x]
    rintro rfl
    exact hi hw
  depends live hl row other hs := by
    obtain ⟨hb, hr⟩ := h.depends _ (fun i hi => hi.imp_right (hl i)) _ _ (hs.set slot.index x)
    exact ⟨hb, hr.size, fun i hi => hr.slots i (.inr hi)⟩

theorem every (elements : List Instance) :
    Footprint reads writes (Loop.every slot body elements) := by
  induction elements with
  | nil => exact .give true
  | cons x rest ih =>
    rw [Loop.every_cons]
    refine (h.round hw x).andThen fun b => ?_
    split
    · exact ih
    · exact .give false

theorem any (elements : List Instance) : Footprint reads writes (Loop.any slot body elements) := by
  induction elements with
  | nil => exact .give false
  | cons x rest ih =>
    rw [Loop.any_cons]
    refine (h.round hw x).andThen fun b => ?_
    split
    · exact .give true
    · exact ih

theorem count (least : Nat) (most : Option Nat) (elements : List Instance) (n : Nat) :
    Footprint reads writes (Loop.count slot body least most n elements) := by
  induction elements generalizing n with
  | nil => exact .give _
  | cons x rest ih =>
    rw [Loop.count_cons]
    refine (h.round hw x).andThen fun b => ?_
    split
    · split
      · exact .give false
      · exact ih (n + 1)
    · exact ih n

end Loops

section Operands

variable {input : Instance} {pool : Declarations} {call : Routines} {es : List Expr}
variable (h : ∀ e ∈ es, Footprint reads writes (e.eval input pool call))
include h

theorem connective (b : Bool) :
    Footprint reads writes ((Expr.connective b es).eval input pool call) := by
  induction es with
  | nil =>
    rw [Expr.eval_connective_nil]
    exact .give b
  | cons e es ih =>
    rw [Expr.eval_connective_cons]
    refine (h e (by simp)).andThen fun c => ?_
    split
    · exact ih fun x hx => h x (.tail _ hx)
    · exact .give _

theorem one (held : Bool) : Footprint reads writes (Expr.evalOne input pool call held es) := by
  induction es generalizing held with
  | nil => exact .give held
  | cons e es ih =>
    rw [Expr.evalOne_cons]
    have later := ih fun x hx => h x (.tail _ hx)
    refine (h e (by simp)).andThen fun c => ?_
    split
    · split
      · exact .give false
      · exact later true
    · exact later held

end Operands

end Footprint

namespace Expr

variable {input : Instance} {pool : Declarations}

def CallsConfined (pool : Declarations) (call : Routines) : Prop :=
  ∀ n r (reads writes : Nat → Prop), (∀ i, (Expr.call n r).Reads pool i → reads i) →
    (∀ i, (Expr.call n r).Writes pool i → writes i) → ∀ i, Footprint reads writes (call n i)

theorem eval_footprint {call : Routines} (hc : CallsConfined pool call) (e : Expr)
    {reads writes : Nat → Prop} (hr : ∀ i, e.Reads pool i → reads i)
    (hw : ∀ i, e.Writes pool i → writes i) :
    Footprint reads writes (e.eval input pool call) := by
  induction e using Expr.induction generalizing reads writes with
  | step e ih =>
    have sees (r : ValueRef) (he : e.ref? = some r) : ∀ s ∈ r.slots, reads s.index :=
      fun s hs => hr _ (.here he hs)
    rcases hl : e.look? pool with _ | ⟨r, test⟩
    case some =>
      have same : e.eval input pool call = fun row => give (test (r.resolve input row)) row :=
        funext (eval_look hl call)
      rw [same]
      exact .along (sees r (ref?_look hl).1) (f := fun i => give (test i)) fun i => .give _
    -- Operands read and write what the condition does, if it binds nothing.
    have part (hb : e.binder? = none) : ∀ x ∈ e.operands,
        Footprint reads writes (x.eval input pool call) := fun x hx =>
      ih x hx (fun i hi => hr i (.inside hx (by simp [hb]) hi)) fun i hi => hw i (.inside hx hi)
    have body (s : Slot) (hb : e.binder? = some s) : ∀ x ∈ e.operands,
        Footprint (fun i => i = s.index ∨ reads i) writes (x.eval input pool call) := by
      refine fun x hx => ih x hx (fun i hi => ?_) fun i hi => hw i (.inside hx hi)
      by_cases hs : i = s.index
      · exact .inl hs
      · refine .inr (hr i (.inside hx (fun t ht => ?_) hi))
        obtain rfl : s = t := Option.some.inj (hb.symm.trans ht)
        exact hs
    cases e with
    | const b => exact .give b
    | not e =>
      have turned (b : Bool) : Footprint reads writes (give !b) := .give _
      exact (part rfl e (by simp [operands])).andThen turned
    | all es => exact .connective (part rfl) true
    | any es => exact .connective (part rfl) false
    | exactlyOne es => exact .one (part rfl) false
    | allItems r s e =>
      have inner := body s rfl e (by simp [operands])
      have rounds (i : Instance) := Footprint.about (x := i.items?) fun items =>
        inner.every (hw _ (.here rfl)) (items.map .value)
      rw [eval_allItems]
      exact .along (sees r rfl) rounds
    | anyItem r s e =>
      have inner := body s rfl e (by simp [operands])
      have rounds (i : Instance) := Footprint.about (x := i.items?) fun items =>
        inner.any (hw _ (.here rfl)) (items.map .value)
      rw [eval_anyItem]
      exact .along (sees r rfl) rounds
    | allKeys r s e =>
      have inner := body s rfl e (by simp [operands])
      have rounds (i : Instance) := Footprint.about (x := i.entries?) fun entries =>
        inner.every (hw _ (.here rfl)) (entries.keys.map .key)
      rw [eval_allKeys]
      exact .along (sees r rfl) rounds
    | call n r => exact .along (sees r rfl) (f := call n) (hc n r reads writes hr hw)
    | unique r helper =>
      cases helper with
      | none => simp [look?] at hl
      | some n => simp only [look?] at hl; split at hl <;> simp at hl
    | matchesPattern r n => simp only [look?] at hl; split at hl <;> simp at hl
    | inTable r n => simp only [look?] at hl; split at hl <;> simp at hl
    | _ => simp [look?] at hl

/-! ## Folded connectives -/

section Folded

variable (input : Instance) (pool : Declarations) (call : Routines) (b : Bool)

theorem eval_connective_append (es fs : List Expr) :
    (connective b (es ++ fs)).eval input pool call =
      andThen ((connective b es).eval input pool call) fun c =>
        if c = b then (connective b fs).eval input pool call else give !b := by
  induction es with
  | nil =>
    rw [eval_connective_nil]
    funext row
    exact (congrFun (if_pos rfl) row).symm
  | cons e es ih =>
    rw [List.cons_append, eval_connective_cons, eval_connective_cons, ih]
    funext row
    by_cases hc : (e.eval input pool call row).1 = b
    · simp [andThen, hc]
    · cases b <;> simp [andThen, give, hc]

/-- Taken apart, a condition is judged as before, unless it decides the connective. -/
theorem eval_parts {e : Expr} (h : e.const? ≠ some !b) :
    (connective b (e.parts b)).eval input pool call = e.eval input pool call := by
  rcases parts_cases b e with ⟨⟨c, rfl⟩, hp⟩ | he | ⟨-, hp⟩
  · have hc : c = b := by cases b <;> cases c <;> simp_all [const?]
    rw [hp, eval_connective_nil, hc]
    rfl
  · rw [← he]
  · rw [hp, eval_connective_single]

theorem eval_flatten {es : List Expr} (h : ∀ e ∈ es, e.const? ≠ some !b) :
    (connective b (es.flatMap (parts b))).eval input pool call =
      (connective b es).eval input pool call := by
  induction es with
  | nil => rfl
  | cons e es ih =>
    rw [List.flatMap_cons, eval_connective_append, eval_connective_cons,
      eval_parts input pool call b (h e (by simp)), ih fun x hx => h x (.tail _ hx)]

theorem eval_decided {es : List Expr} (h : ∃ e ∈ es, e.const? = some !b) (row : Slots) :
    ((connective b es).eval input pool call row).1 = !b := by
  induction es generalizing row with
  | nil =>
    obtain ⟨e, he, -⟩ := h
    cases he
  | cons e es ih =>
    rw [eval_connective_cons]
    simp only [andThen]
    split
    · next hc =>
      obtain ⟨x, hx, hxc⟩ := h
      rcases List.mem_cons.mp hx with rfl | hx
      · rw [eq_const_of_const? hxc] at hc
        cases b <;> cases hc
      · exact ih ⟨x, hx, hxc⟩ _
    · rfl

/-- Folded, a connective is judged as before; only where an operand decides it the others are not
evaluated. -/
theorem eval_joined (es : List Expr) (row : Slots) :
    (joined b es).eval input pool call row = (connective b es).eval input pool call row ∨
      (joined b es).eval input pool call row = (!b, row) ∧
        ((connective b es).eval input pool call row).1 = !b := by
  unfold joined
  split
  · next h => exact .inr ⟨rfl, eval_decided input pool call b (by simpa using h) row⟩
  · next h =>
    left
    have undecided : ∀ e ∈ es, e.const? ≠ some !b := by simpa using h
    rw [← eval_flatten input pool call b undecided]
    fun_cases collapse b (connective b) (es.flatMap (parts b)) with
    | case1 => rw [eval_connective_nil]; rfl
    | case2 e => rw [eval_connective_single]
    | case3 => rfl

end Folded

end Expr

section Calls

variable {input : Instance} {pool : Declarations}

theorem Footprint.run {reads writes : Nat → Prop} {call : Routines} {f : Routine}
    (h : Footprint (fun i => i = f.item.index ∨ reads i) writes (f.body.eval input pool call))
    (hw : writes f.item.index) (items : List Json) :
    Footprint reads writes (f.run input pool call items) := by
  cases f with
  | count item body least most => exact h.count hw least most _ 0
  | everyFrom start item body => exact h.every hw _

/-- Routines keep to what they read and write: by induction on the place up to which they are
declared, since a body calls earlier routines only. -/
theorem below_confined (input : Instance) (pool : Declarations) (depth : Nat) :
    Expr.CallsConfined pool (Routine.below input pool depth) := by
  induction depth with
  | zero => exact fun _ _ _ _ _ _ _ => .give false
  | succ n ih =>
    intro name r reads writes hr hw i
    change Footprint reads writes fun row => Routine.below input pool (n + 1) name i row
    simp only [Routine.below]
    split
    · next hn =>
      subst hn
      split
      · next f items hf _ =>
        refine Footprint.run (Expr.eval_footprint ih f.body (fun j hj => ?_) fun j hj => ?_)
          (hw _ (.item hf)) items
        · by_cases hi : j = f.item.index
          · exact .inl hi
          · exact .inr (hr j (.called hf hi hj))
        · exact hw j (.called hf hj)
      · exact .give false
    · exact ih name r reads writes hr hw i

end Calls

end SchemaLogic
