import SchemaLogic.Proofs.Equality
import SchemaLogic.Proofs.KeywordMeaning
import SchemaLogic.Proofs.NumberValue

/-! # What equality by value identifies

Two values with their names in order are equal if and only if they have one content, in which
numbers are rational numbers whatever their kinds. -/
namespace SchemaLogic

/-- A JSON value with rational numbers in the place of its numbers. -/
inductive Content where
  | null
  | bool (b : Bool)
  | number (q : ℚ)
  | string (s : String)
  | array (items : List Content)
  | object (members : List (String × Content))

namespace Json

mutual

def content : Json → Content
  | .null => .null
  | .bool b => .bool b
  | .number n => .number n.value
  | .string s => .string s
  | .array items => .array (contentItems items)
  | .object members => .object (contentMembers members)
termination_by structural json => json

def contentItems : List Json → List Content
  | [] => []
  | item :: rest => item.content :: contentItems rest
termination_by structural items => items

def contentMembers : Members → List (String × Content)
  | [] => []
  | (name, value) :: rest => (name, value.content) :: contentMembers rest
termination_by structural members => members

end

theorem content_array (items : List Json) :
    (Json.array items).content = .array (items.map content) := by
  have each : contentItems items = items.map content := by
    induction items with
    | nil => rfl
    | cons item rest ih => rw [contentItems, ih, List.map_cons]
  rw [content, each]

theorem content_object (members : Members) :
    (Json.object members).content = .object (members.map fun m => (m.1, m.2.content)) := by
  have each : contentMembers members = members.map fun m => (m.1, m.2.content) := by
    induction members with
    | nil => rfl
    | cons member rest ih => rw [contentMembers, ih, List.map_cons]
  rw [content, each]

/-- Values in order are equal if they have one content. -/
theorem equal_iff_content {u v : Json} (hu : u.Sorted) (hv : v.Sorted) :
    u.equal v = true ↔ u.content = v.content := by
  induction u using Json.induction generalizing v with
  | null => cases v <;> simp [equal, content]
  | bool b => cases v <;> simp [equal, content]
  | string s => cases v <;> simp [equal, content]
  | number n => cases v <;> simp [equal, content, Number.equals_iff]
  | array items ih =>
    cases v with
    | array others =>
      rw [equal, equalItems_iff, content_array, content_array, Content.array.injEq,
        map_eq_map_iff_forall₂]
      exact forall₂_congr_of_mem fun a ha b hb =>
        ih a ha (sorted_array.mp hu a ha) (sorted_array.mp hv b hb)
    | _ => simp [equal, content]
  | object members ih =>
    cases v with
    | object others =>
      obtain ⟨hnames, hmembers⟩ := sorted_object.mp hu
      obtain ⟨hnames', hothers⟩ := sorted_object.mp hv
      rw [equal, Bool.and_eq_true, beq_iff_eq, equalMembers_iff hnames hnames', content_object,
        content_object, Content.object.injEq, map_eq_map_iff_forall₂]
      refine forall₂_congr_of_mem fun a ha b hb => ?_
      rw [Prod.mk.injEq, ih a ha (hmembers a ha) (hothers b hb)]
    | _ => simp [equal, content]

theorem isUnique_iff_nodup {items : List Json} (h : (Json.array items).Sorted) :
    isUnique equal items = true ↔ (items.map content).Nodup := by
  rw [isUnique_iff, List.Nodup, List.pairwise_map]
  refine List.Pairwise.iff_of_mem fun ha hb => ?_
  rw [← Bool.not_eq_true, equal_iff_content (sorted_array.mp h _ ha) (sorted_array.mp h _ hb)]

/-! ## Interchangeable values -/

/-- Values in order with one content. -/
structure Interchangeable (u v : Json) : Prop where
  left : u.Sorted
  right : v.Sorted
  content : u.content = v.content

def InterchangeableMembers (a b : String × Json) : Prop := a.1 = b.1 ∧ a.2.Interchangeable b.2

inductive Parallel : Json → Json → Prop where
  | null : Parallel .null .null
  | bool (b : Bool) : Parallel (.bool b) (.bool b)
  | number {n m : Number} : n.value = m.value → Parallel (.number n) (.number m)
  | string (s : String) : Parallel (.string s) (.string s)
  | array {as bs : List Json} : List.Forall₂ Interchangeable as bs →
      Parallel (.array as) (.array bs)
  | object {as bs : Members} : List.Forall₂ InterchangeableMembers as bs →
      Parallel (.object as) (.object bs)

theorem Interchangeable.refl {v : Json} (h : v.Sorted) : v.Interchangeable v := ⟨h, h, rfl⟩

theorem Interchangeable.parallel {u v : Json} (h : u.Interchangeable v) : u.Parallel v := by
  obtain ⟨hu, hv, hc⟩ := h
  cases u with
  | null => cases v <;> cases hc; exact .null
  | bool b => cases v <;> cases hc; exact .bool b
  | string s => cases v <;> cases hc; exact .string s
  | number n =>
    cases v with
    | number m => exact .number (Content.number.inj hc)
    | _ => cases hc
  | array items =>
    cases v with
    | array others =>
      rw [content_array, content_array, Content.array.injEq, map_eq_map_iff_forall₂] at hc
      refine .array ((forall₂_congr_of_mem fun a ha b hb => ?_).mp hc)
      exact ⟨fun h => ⟨sorted_array.mp hu a ha, sorted_array.mp hv b hb, h⟩, (·.content)⟩
    | _ => cases hc
  | object members =>
    cases v with
    | object others =>
      obtain ⟨-, hmembers⟩ := sorted_object.mp hu
      obtain ⟨-, hothers⟩ := sorted_object.mp hv
      rw [content_object, content_object, Content.object.injEq, map_eq_map_iff_forall₂] at hc
      refine .object ((forall₂_congr_of_mem fun a ha b hb => ?_).mp hc)
      rw [Prod.mk.injEq]
      exact and_congr_right fun _ => ⟨fun h => ⟨hmembers a ha, hothers b hb, h⟩, (·.content)⟩
    | _ => cases hc

theorem isUnique_interchangeable {items others : List Json}
    (h : (Json.array items).Interchangeable (.array others)) :
    isUnique equal items = isUnique equal others := by
  have contents : items.map Json.content = others.map Json.content := by
    simpa only [content_array, Content.array.injEq] using h.content
  rw [Bool.eq_iff_iff, isUnique_iff_nodup h.left, isUnique_iff_nodup h.right, contents]

theorem index_interchangeable {items others : List Json}
    (h : List.Forall₂ Interchangeable items others) (i : Nat) :
    Option.Rel Interchangeable items[i]? others[i]? := by
  by_cases hi : i < items.length
  · have hi' : i < others.length := h.length_eq ▸ hi
    rw [List.getElem?_eq_getElem hi, List.getElem?_eq_getElem hi']
    exact .some (h.get hi hi')
  · have hi' : ¬i < others.length := h.length_eq ▸ hi
    rw [List.getElem?_eq_none (Nat.le_of_not_lt hi), List.getElem?_eq_none (Nat.le_of_not_lt hi')]
    exact .none

theorem lookup_interchangeable {as bs : Members} (h : List.Forall₂ InterchangeableMembers as bs)
    (name : String) : Option.Rel Interchangeable (as.lookup name) (bs.lookup name) := by
  induction h with
  | nil => exact .none
  | @cons a b _ _ hab _ ih =>
    obtain ⟨hname, hvalue⟩ := hab
    rw [List.lookup_cons, List.lookup_cons, hname]
    split
    · exact .some hvalue
    · exact ih

theorem any_of_rel {α β : Type} {R : α → β → Prop} {x : Option α} {y : Option β}
    (h : Option.Rel R x y) {f : α → Bool} {g : β → Bool} (hfg : ∀ a b, R a b → f a = g b) :
    x.any f = y.any g := by
  cases h with
  | none => rfl
  | some hab => exact hfg _ _ hab

/-- No literal tells interchangeable values apart, in order or not. -/
theorem equal_interchangeable (literal : Json) {u v : Json} (h : u.Interchangeable v) :
    literal.equal u = literal.equal v := by
  induction literal using Json.induction generalizing u v with
  | number n =>
    cases h.parallel with
    | @number m m' hvalue =>
      rw [equal, equal, Bool.eq_iff_iff, Number.equals_iff, Number.equals_iff, hvalue]
    | _ => rfl
  | array items ih =>
    cases h.parallel with
    | @array as bs hparts =>
      rw [equal, equal]
      clear h
      induction hparts generalizing items with
      | nil => rfl
      | @cons u v us vs huv _ ihparts =>
        cases items with
        | nil => rfl
        | cons item rest =>
          have rest := ihparts rest fun a ha => ih a (.tail _ ha)
          rw [equalItems, equalItems, ih item (.head _) huv, rest]
    | _ => rfl
  | object members ih =>
    cases h.parallel with
    | @object as bs hparts =>
      have found : equalMembers members as = equalMembers members bs := by
        rw [equalMembers_eq, equalMembers_eq]
        refine all_congr_mem fun member hmember => ?_
        exact any_of_rel (lookup_interchangeable hparts member.1) fun _ _ => ih member hmember
      rw [equal, equal, hparts.length_eq, found]
    | _ => rfl
  | _ => cases h.parallel <;> rfl

end Json

end SchemaLogic
