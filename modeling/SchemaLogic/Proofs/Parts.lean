import SchemaLogic.Reference.Pointer

/-! # Parts of a value

The values inside a value, and tests that all of them pass. A pointer leads to a part of the
document that it is resolved in. -/
namespace SchemaLogic

namespace Json

/-- What holds of an array if it holds of its items, and of an object if it holds of the values of
its members, holds of every value. -/
theorem induction {P : Json → Prop} (null : P .null) (bool : ∀ b, P (.bool b))
    (number : ∀ n, P (.number n)) (string : ∀ s, P (.string s))
    (array : ∀ items : List Json, (∀ item ∈ items, P item) → P (.array items))
    (object : ∀ members : Members, (∀ member ∈ members, P member.2) → P (.object members))
    (json : Json) : P json := by
  refine @Json.rec P (fun items => ∀ item ∈ items, P item) (fun members => ∀ m ∈ members, P m.2)
    (fun member => P member.2) null bool number string array object ?_ ?_ ?_ ?_ ?_ json
  · intro item hi
    cases hi
  · intro first rest hfirst hrest item hi
    rcases List.mem_cons.mp hi with rfl | hi
    · exact hfirst
    · exact hrest item hi
  · intro member hm
    cases hm
  · intro first rest hfirst hrest member hm
    rcases List.mem_cons.mp hm with rfl | hm
    · exact hfirst
    · exact hrest member hm
  · intro name value hvalue
    exact hvalue

/-- One value is another one or stands inside it. -/
inductive Inside : Json → Json → Prop where
  | self {json} : Inside json json
  | item {part item items} : item ∈ items → Inside part item → Inside part (.array items)
  | member {part name value members} : (name, value) ∈ members → Inside part value →
      Inside part (.object members)

mutual

def throughout (p : Json → Bool) : Json → Bool
  | .array items => p (.array items) && throughoutItems p items
  | .object members => p (.object members) && throughoutMembers p members
  | .null => p .null
  | .bool b => p (.bool b)
  | .number n => p (.number n)
  | .string s => p (.string s)
termination_by structural json => json

def throughoutItems (p : Json → Bool) : List Json → Bool
  | [] => true
  | item :: rest => throughout p item && throughoutItems p rest
termination_by structural items => items

def throughoutMembers (p : Json → Bool) : Members → Bool
  | [] => true
  | (_, value) :: rest => throughout p value && throughoutMembers p rest
termination_by structural members => members

end

variable {p : Json → Bool}

theorem throughout_array {items : List Json} : (Json.array items).throughout p = true ↔
    p (.array items) = true ∧ ∀ item ∈ items, item.throughout p = true := by
  have inner : throughoutItems p items = true ↔ ∀ item ∈ items, item.throughout p = true := by
    induction items with
    | nil => simp [throughoutItems]
    | cons item rest ih => simp [throughoutItems, ih]
  rw [throughout, Bool.and_eq_true, inner]

theorem throughout_object {members : Members} : (Json.object members).throughout p = true ↔
    p (.object members) = true ∧ ∀ member ∈ members, member.2.throughout p = true := by
  have inner : throughoutMembers p members = true ↔
      ∀ member ∈ members, member.2.throughout p = true := by
    induction members with
    | nil => simp [throughoutMembers]
    | cons member rest ih => simp [throughoutMembers, ih]
  rw [throughout, Bool.and_eq_true, inner]

theorem throughout_self {json : Json} (h : json.throughout p = true) : p json = true := by
  cases json with
  | array items => exact (throughout_array.mp h).1
  | object members => exact (throughout_object.mp h).1
  | _ => exact h

theorem throughout_inside {part json : Json} (h : json.throughout p = true)
    (hp : Inside part json) : part.throughout p = true := by
  induction hp with
  | self => exact h
  | item hi _ ih => exact ih ((throughout_array.mp h).2 _ hi)
  | member hm _ ih => exact ih ((throughout_object.mp h).2 _ hm)

end Json

namespace Pointer

theorem step?_inside {json next whole : Json} {token : String} (h : step? json token = some next)
    (hw : Json.Inside json whole) : Json.Inside next whole := by
  induction hw with
  | self =>
    unfold step? at h
    split at h
    · exact .member (Json.mem_of_lookup h) .self
    · obtain ⟨i, -, hi⟩ := Option.bind_eq_some_iff.mp h
      exact .item (List.mem_of_getElem? hi) .self
    · cases h
  | item hi _ ih => exact .item hi ih
  | member hm _ ih => exact .member hm ih

theorem walk_inside {fragment : String} {segments : List (List Char)} {json target whole : Json}
    (h : walk fragment json segments = .ok target) (hw : Json.Inside json whole) :
    Json.Inside target whole := by
  induction segments generalizing json with
  | nil =>
    cases h
    exact hw
  | cons segment rest ih =>
    rw [walk] at h
    split at h
    · cases h
    · split at h
      · next hs => exact ih h (step?_inside hs hw)
      · cases h

theorem resolve_inside {document target : Json} {fragment : String}
    (h : resolve document fragment = .ok target) : Json.Inside target document := by
  unfold resolve at h
  split at h
  · cases h
    exact .self
  · exact walk_inside h .self
  · cases h

end Pointer

end SchemaLogic
