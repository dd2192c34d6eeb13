import SchemaLogic.Expr.ValueRef
import SchemaLogic.Proofs.JsonText

/-! # Different references have different texts

The text of a reference is read from its start: first the input or a loop variable, then one step
after another. The first two characters of a step tell how it is written, a name after a dot ends
before the next dot or bracket, and what stands in brackets ends at the closing one. -/
namespace SchemaLogic

/-! ## Numbers and loop variables -/

def Undigited (rest : List Char) : Prop := ∀ c ∈ rest.head?, (!c.isDigit) = true

theorem undigited_cons {c : Char} {rest : List Char} (h : c.isDigit = false) :
    Undigited (c :: rest) := by
  intro d hd
  rw [← Option.mem_some.mp hd, h]
  rfl

theorem toDigits_cancel {i j : Nat} {rest rest' : List Char} (hrest : Undigited rest)
    (hrest' : Undigited rest') (h : Nat.toDigits 10 i ++ rest = Nat.toDigits 10 j ++ rest') :
    i = j ∧ rest = rest' := by
  have digits (n : Nat) : ∀ c ∈ Nat.toDigits 10 n, (!c.isDigit) = false := by
    intro c hc
    rw [isDigit_of_mem_toDigits n c hc]
    rfl
  obtain ⟨same, rests⟩ := append_cancel_at (digits i) (digits j) hrest hrest' h
  exact ⟨Decimal.toDigits_inj same, rests⟩

def SlotKind.letter : SlotKind → Char
  | .item => 'v'
  | .key => 'k'

theorem SlotKind.letter_inj {a b : SlotKind} (h : a.letter = b.letter) : a = b := by
  cases a <;> cases b <;> first | rfl | exact absurd h (by decide)

theorem SlotKind.letter_ne_input (kind : SlotKind) : kind.letter ≠ 'x' := by
  cases kind <;> decide

namespace Slot

theorem toList_render (s : Slot) : s.render.toList = s.kind.letter :: Nat.toDigits 10 s.index := by
  obtain ⟨kind, index⟩ := s
  cases kind <;> simp [render, SlotKind.letter]

theorem render_cancel {s t : Slot} {rest rest' : List Char} (hrest : Undigited rest)
    (hrest' : Undigited rest') (h : s.render.toList ++ rest = t.render.toList ++ rest') :
    s = t ∧ rest = rest' := by
  obtain ⟨kind, index⟩ := s
  obtain ⟨kind', index'⟩ := t
  rw [toList_render, toList_render] at h
  obtain ⟨letters, tails⟩ := List.cons.inj h
  obtain ⟨rfl, rests⟩ := toDigits_cancel hrest hrest' tails
  cases SlotKind.letter_inj letters
  exact ⟨rfl, rests⟩

end Slot

namespace ValueRef

/-! ## Steps -/

inductive Step where
  | property (name : String)
  | index (i : Nat)
  | member (key : Slot)

namespace Step

def apply (base : ValueRef) : Step → ValueRef
  | .property name => .property base name
  | .index i => .index base i
  | .member key => .member base key

def bracketed (cs : List Char) : List Char := '[' :: (cs ++ [']'])

theorem bracketed_append (cs rest : List Char) :
    bracketed cs ++ rest = '[' :: (cs ++ ']' :: rest) := by
  rw [bracketed, List.cons_append, List.append_assoc, List.singleton_append]

def chars : Step → List Char
  | .property name =>
    if isIdentifier name then '.' :: name.toList else bracketed (Json.quote name).toList
  | .index i => bracketed (Nat.toDigits 10 i)
  | .member key => bracketed key.render.toList

inductive Style where
  | dotted
  | quoted
  | numbered
  | bound

def style : Step → Style
  | .property name => if isIdentifier name then .dotted else .quoted
  | .index _ => .numbered
  | .member _ => .bound

def styleOf? : List Char → Option Style
  | '.' :: _ => some .dotted
  | '[' :: c :: _ => some (if c = '"' then .quoted else if c.isDigit then .numbered else .bound)
  | _ => none

theorem styleOf?_chars (s : Step) (rest : List Char) :
    styleOf? (s.chars ++ rest) = some s.style := by
  cases s with
  | property name =>
    rw [chars, style]
    split
    · rfl
    · rw [Json.toList_quote]
      rfl
  | index i =>
    obtain ⟨c, cs, hcs⟩ := List.exists_cons_of_ne_nil (Nat.toDigits_ne_nil (n := i) (b := 10))
    have digit : c.isDigit = true := isDigit_of_mem_toDigits i c (by simp [hcs])
    have unquoted : c ≠ '"' := ne_of_isDigit digit rfl
    rw [chars, hcs]
    change some (if c = '"' then _ else if c.isDigit = true then _ else _) = _
    rw [if_neg unquoted, if_pos digit]
    rfl
  | member key =>
    obtain ⟨kind, index⟩ := key
    rw [chars, Slot.toList_render]
    cases kind <;> rfl

theorem style_of_chars {s t : Step} {rest rest' : List Char}
    (h : s.chars ++ rest = t.chars ++ rest') : s.style = t.style := by
  have same := styleOf?_chars s rest
  rw [h, styleOf?_chars] at same
  exact (Option.some.inj same).symm

def isOpening (c : Char) : Bool := c == '.' || c == '['

theorem isOpening_of_mem {name : String} (h : isIdentifier name = true) :
    ∀ c ∈ name.toList, isOpening c = false := by
  have plain (c : Char) (hc : (isIdentifierStart c || c.isDigit) = true) : isOpening c = false := by
    rw [← Bool.not_eq_true, isOpening, Bool.or_eq_true, beq_iff_eq, beq_iff_eq]
    rintro (rfl | rfl) <;> exact absurd hc (by decide)
  rw [isIdentifier] at h
  split at h
  · cases h
  · next c cs hname =>
    rw [hname]
    rw [Bool.and_eq_true, List.all_eq_true] at h
    intro d hd
    rcases List.mem_cons.mp hd with rfl | hd
    · exact plain d (by rw [h.1]; rfl)
    · exact plain d (h.2 d hd)

def Opens (rest : List Char) : Prop := ∀ c ∈ rest.head?, isOpening c = true

theorem opens_flatMap (steps : List Step) : Opens (steps.flatMap chars) := by
  intro c hc
  cases steps with
  | nil => cases hc
  | cons s steps =>
    cases s with
    | property name =>
      rw [List.flatMap_cons, chars] at hc
      split at hc
      · exact Option.mem_some.mp hc ▸ rfl
      · exact Option.mem_some.mp hc ▸ rfl
    | index i => exact Option.mem_some.mp hc ▸ rfl
    | member key => exact Option.mem_some.mp hc ▸ rfl

theorem Opens.undigited {rest : List Char} (h : Opens rest) : Undigited rest := by
  intro c hc
  have opening := h c hc
  rw [isOpening, Bool.or_eq_true, beq_iff_eq, beq_iff_eq] at opening
  rcases opening with rfl | rfl <;> rfl

/-- A name is written after a dot or in quotes, and either way it ends where the step does. -/
theorem property_cancel {name name' : String} {rest rest' : List Char} (hrest : Opens rest)
    (hrest' : Opens rest')
    (h : (property name).chars ++ rest = (property name').chars ++ rest') :
    name = name' ∧ rest = rest' := by
  have styles := style_of_chars h
  rw [style, style] at styles
  by_cases dotted : isIdentifier name = true
  · have dotted' : isIdentifier name' = true := by
      by_contra quoted
      rw [if_pos dotted, if_neg quoted] at styles
      cases styles
    rw [chars, chars, if_pos dotted, if_pos dotted'] at h
    obtain ⟨names, rests⟩ := append_cancel_at (isOpening_of_mem dotted)
      (isOpening_of_mem dotted') hrest hrest' (List.cons.inj h).2
    exact ⟨String.toList_inj.mp names, rests⟩
  · have quoted' : ¬isIdentifier name' = true := by
      intro dotted'
      rw [if_neg dotted, if_pos dotted'] at styles
      cases styles
    rw [chars, chars, if_neg dotted, if_neg quoted', bracketed_append, bracketed_append] at h
    obtain ⟨rfl, rests⟩ := Json.quote_cancel (List.cons.inj h).2
    exact ⟨rfl, (List.cons.inj rests).2⟩

/-- A step is determined by its text with other steps after it. -/
theorem chars_cancel {s t : Step} {rest rest' : List Char} (hrest : Opens rest)
    (hrest' : Opens rest') (h : s.chars ++ rest = t.chars ++ rest') : s = t ∧ rest = rest' := by
  have closed (tail : List Char) : Undigited (']' :: tail) := undigited_cons rfl
  have styles := style_of_chars h
  cases s with
  | property name =>
    cases t with
    | property name' =>
      obtain ⟨rfl, rests⟩ := property_cancel hrest hrest' h
      exact ⟨rfl, rests⟩
    | _ =>
      rw [style] at styles
      split at styles <;> cases styles
  | index i =>
    cases t with
    | property name =>
      rw [style, style] at styles
      split at styles <;> cases styles
    | index j =>
      rw [chars, chars, bracketed_append, bracketed_append] at h
      obtain ⟨rfl, rests⟩ := toDigits_cancel (closed _) (closed _) (List.cons.inj h).2
      exact ⟨rfl, (List.cons.inj rests).2⟩
    | member key => cases styles
  | member key =>
    cases t with
    | property name =>
      rw [style, style] at styles
      split at styles <;> cases styles
    | index j => cases styles
    | member key' =>
      rw [chars, chars, bracketed_append, bracketed_append] at h
      obtain ⟨rfl, rests⟩ := Slot.render_cancel (closed _) (closed _) (List.cons.inj h).2
      exact ⟨rfl, (List.cons.inj rests).2⟩

theorem chars_ne_nil (s : Step) : s.chars ≠ [] := by
  intro empty
  have style := styleOf?_chars s []
  rw [empty] at style
  cases style

theorem flatMap_chars_cancel {steps steps' : List Step}
    (h : steps.flatMap chars = steps'.flatMap chars) : steps = steps' := by
  induction steps generalizing steps' with
  | nil =>
    cases steps' with
    | nil => rfl
    | cons t steps' => exact absurd (List.append_eq_nil_iff.mp h.symm).1 t.chars_ne_nil
  | cons s steps ih =>
    cases steps' with
    | nil => exact absurd (List.append_eq_nil_iff.mp h).1 s.chars_ne_nil
    | cons t steps' =>
      rw [List.flatMap_cons, List.flatMap_cons] at h
      obtain ⟨rfl, rests⟩ := chars_cancel (opens_flatMap steps) (opens_flatMap steps') h
      rw [ih rests]

end Step

/-! ## References -/

/-- The loop variable that a reference starts from, if it is not the input. -/
def origin : ValueRef → Option Slot
  | .input => none
  | .slot s => some s
  | .property base _ => base.origin
  | .index base _ => base.origin
  | .member base _ => base.origin

def steps : ValueRef → List Step
  | .input => []
  | .slot _ => []
  | .property base name => base.steps ++ [.property name]
  | .index base i => base.steps ++ [.index i]
  | .member base key => base.steps ++ [.member key]

def ofOrigin : Option Slot → ValueRef
  | none => .input
  | some s => .slot s

/-- A reference is where it starts, or one step from another reference. -/
theorem stepwise {P : ValueRef → Prop} (start : ∀ origin, P (ofOrigin origin))
    (step : ∀ base (s : Step), P base → P (s.apply base)) (r : ValueRef) : P r := by
  induction r with
  | input => exact start none
  | slot s => exact start (some s)
  | property base name ih => exact step base (.property name) ih
  | index base i ih => exact step base (.index i) ih
  | member base key ih => exact step base (.member key) ih

section Step

variable (base : ValueRef) (s : Step)

theorem origin_apply : (s.apply base).origin = base.origin := by cases s <;> rfl

theorem steps_apply : (s.apply base).steps = base.steps ++ [s] := by cases s <;> rfl

theorem toList_render_apply : (s.apply base).render.toList = base.render.toList ++ s.chars := by
  cases s with
  | property name =>
    rw [Step.apply, render, Step.chars]
    split <;> simp [Step.bracketed]
  | index i => simp [Step.apply, render, Step.chars, Step.bracketed]
  | member key => simp [Step.apply, render, Step.chars, Step.bracketed]

end Step

theorem foldl_steps (r : ValueRef) : r.steps.foldl Step.apply (ofOrigin r.origin) = r := by
  induction r using stepwise with
  | start origin => cases origin <;> rfl
  | step base s ih => rw [steps_apply, origin_apply, List.foldl_append, ih]; rfl

theorem toList_render (r : ValueRef) :
    r.render.toList = (ofOrigin r.origin).render.toList ++ r.steps.flatMap Step.chars := by
  induction r using stepwise with
  | start origin => cases origin <;> exact (List.append_nil _).symm
  | step base s ih =>
    rw [toList_render_apply, steps_apply, origin_apply, ih, List.flatMap_append,
      List.flatMap_singleton, List.append_assoc]

theorem origin_cancel {a b : Option Slot} {rest rest' : List Char} (hrest : Step.Opens rest)
    (hrest' : Step.Opens rest')
    (h : (ofOrigin a).render.toList ++ rest = (ofOrigin b).render.toList ++ rest') :
    a = b ∧ rest = rest' := by
  have apart (s : Slot) (tail tail' : List Char) :
      (slot s).render.toList ++ tail ≠ 'x' :: tail' := by
    rw [render, Slot.toList_render]
    intro heq
    exact s.kind.letter_ne_input (List.cons.inj heq).1
  cases a with
  | none =>
    cases b with
    | none => exact ⟨rfl, (List.cons.inj h).2⟩
    | some t => exact absurd h.symm (apart t _ _)
  | some s =>
    cases b with
    | none => exact absurd h (apart s _ _)
    | some t =>
      obtain ⟨rfl, rests⟩ := Slot.render_cancel hrest.undigited hrest'.undigited h
      exact ⟨rfl, rests⟩

/-- Two references are printed alike if and only if they are the same. -/
theorem render_eq_iff (p q : ValueRef) : p.render = q.render ↔ p = q := by
  refine ⟨fun h => ?_, congrArg render⟩
  have texts := congrArg String.toList h
  rw [toList_render p, toList_render q] at texts
  obtain ⟨origins, tails⟩ :=
    origin_cancel (Step.opens_flatMap p.steps) (Step.opens_flatMap q.steps) texts
  rw [← foldl_steps p, ← foldl_steps q, origins, Step.flatMap_chars_cancel tails]

end ValueRef

end SchemaLogic
