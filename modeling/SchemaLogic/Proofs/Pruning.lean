import SchemaLogic.Proofs.Traversal

/-! # Schemas without references

Inlining leaves stores out of every object that it takes for a schema, and changes nothing else in
a schema without references. -/
namespace SchemaLogic

open Resolver

namespace Json

mutual

def lacks (name : String) : Json → Bool
  | .object members => lacksInMembers name members
  | .array items => lacksInItems name items
  | _ => true
termination_by structural json => json

def lacksInItems (name : String) : List Json → Bool
  | [] => true
  | item :: rest => lacks name item && lacksInItems name rest
termination_by structural items => items

def lacksInMembers (name : String) : Members → Bool
  | [] => true
  | (other, value) :: rest => other != name && lacks name value && lacksInMembers name rest
termination_by structural members => members

end

variable {name : String}

theorem lacks_item {items : List Json} (h : (Json.array items).lacks name = true) :
    ∀ item ∈ items, item.lacks name = true := by
  rw [lacks] at h
  induction items with
  | nil =>
    intro item hi
    cases hi
  | cons first rest ih =>
    rw [lacksInItems, Bool.and_eq_true] at h
    intro item hi
    rcases List.mem_cons.mp hi with rfl | hi
    · exact h.1
    · exact ih h.2 item hi

theorem lacks_member {members : Members} (h : (Json.object members).lacks name = true) :
    ∀ member ∈ members, member.1 ≠ name ∧ member.2.lacks name = true := by
  rw [lacks] at h
  induction members with
  | nil =>
    intro member hm
    cases hm
  | cons first rest ih =>
    rw [lacksInMembers, Bool.and_eq_true, Bool.and_eq_true] at h
    intro member hm
    rcases List.mem_cons.mp hm with rfl | hm
    · exact ⟨by simpa using h.1.1, h.1.2⟩
    · exact ih h.2 member hm

end Json

theorem reference?_of_lacks {members : Json.Members}
    (h : (Json.object members).lacks "$ref" = true) : reference? members = none := by
  have hnone : members.lookup "$ref" = none := by
    cases hl : members.lookup "$ref" with
    | none => rfl
    | some value => exact absurd rfl (Json.lacks_member h _ (Json.mem_of_lookup hl)).1
  rw [reference?, hnone]
  rfl

theorem not_meets_of_lacks {siblings : Bool} {node : Json} {reference : String}
    (h : node.lacks "$ref" = true) : ¬ Meets siblings node reference := by
  intro hm
  induction hm with
  | here hr =>
    rw [reference?_of_lacks h] at hr
    cases hr
  | item hi _ ih => exact ih (Json.lacks_item h _ hi)
  | beside _ hm hp _ ih =>
    have hvalue := (Json.lacks_member h _ hm).2
    cases hp with
    | schema => exact ih hvalue
    | entry _ he => exact ih (Json.lacks_member hvalue _ he).2

/-! ## What inlining leaves -/

namespace Resolver

variable (siblings : Bool)

/-- A schema as inlining leaves it; a reference would become an empty schema. -/
def prune : Json → Json := inlineNode (m := Id) siblings fun _ => .object []

def pruneMembers : Json.Members → Json.Members :=
  inlineMembers (m := Id) siblings fun _ => .object []

def pruneValue (name : String) (value : Json) : Json :=
  if dataKeywords.contains name then value
  else if schemaMaps.contains name then inlineMap (m := Id) siblings (fun _ => .object []) value
  else prune siblings value

def dropped (member : String × Json) : Bool :=
  storeKeywords.contains member.1 || (member.1 == "$ref" && member.2.string?.isSome)

theorem prune_array (items : List Json) :
    prune siblings (.array items) = .array (items.map (prune siblings)) := by
  have hitems : inlineItems (m := Id) siblings (fun _ => .object []) items =
      items.map (prune siblings) := by
    induction items with
    | nil => rfl
    | cons item rest ih =>
      rw [inlineItems, ih]
      rfl
  rw [prune, inlineNode, hitems]
  rfl

theorem prune_object {members : Json.Members} (h : reference? members = none) :
    prune siblings (.object members) = .object (pruneMembers siblings members) := by
  rw [prune, inlineNode, h]
  rfl

theorem pruneMap_object (schemas : Json.Members) :
    inlineMap (m := Id) siblings (fun _ => .object []) (.object schemas) =
      .object (schemas.map fun entry => (entry.1, prune siblings entry.2)) := by
  have hschemas : inlineSchemas (m := Id) siblings (fun _ => .object []) schemas =
      schemas.map fun entry => (entry.1, prune siblings entry.2) := by
    induction schemas with
    | nil => rfl
    | cons entry rest ih =>
      rw [inlineSchemas, ih]
      rfl
  rw [inlineMap, hschemas]
  rfl

theorem pruneMembers_cons (member : String × Json) (rest : Json.Members) :
    pruneMembers siblings (member :: rest) =
      if dropped member then pruneMembers siblings rest
      else (member.1, pruneValue siblings member.1 member.2) :: pruneMembers siblings rest := by
  rw [pruneMembers, inlineMembers]
  rfl

theorem prune_object_shape (members : Json.Members) :
    ∃ left, prune siblings (.object members) = .object left := by
  rw [prune, inlineNode]
  cases reference? members with
  | none => exact ⟨_, rfl⟩
  | some reference =>
    cases siblings with
    | false => exact ⟨_, rfl⟩
    | true =>
      change ∃ left, combine (.object []) _ = .object left
      rw [combine]
      split <;> exact ⟨_, rfl⟩

theorem pruneValue_eq_prune {name : String} {value : Json} (hd : name ∉ dataKeywords)
    (hm : name ∉ schemaMaps ∨ value.members? = none) :
    pruneValue siblings name value = prune siblings value := by
  rw [pruneValue, if_neg (by simpa using hd)]
  split
  · next hmap =>
    have hmap : name ∈ schemaMaps := by simpa using hmap
    exact inlineMap_eq (hm.resolve_left fun h => h hmap)
  · rfl

/-- Inlining takes the value of a keyword for a schema, whatever it is. -/
def Entered (name : String) : Prop :=
  name ∉ storeKeywords ∧ name ∉ dataKeywords ∧ name ∉ schemaMaps ∧ name ≠ "$ref"

instance (name : String) : Decidable (Entered name) :=
  inferInstanceAs (Decidable (_ ∧ _ ∧ _ ∧ _))

theorem pruneValue_entered {name : String} (h : Entered name) :
    pruneValue siblings name = prune siblings :=
  funext fun _ => pruneValue_eq_prune siblings h.2.1 (.inl h.2.2.1)

theorem pruneValue_map {name : String} (hm : name ∈ schemaMaps) (schemas : Json.Members) :
    pruneValue siblings name (.object schemas) =
      .object (schemas.map fun entry => (entry.1, prune siblings entry.2)) := by
  rw [pruneValue, if_neg (by simpa using not_data_of_map hm), if_pos (by simpa using hm),
    pruneMap_object]

theorem lookup_pruneMembers {name : String} (h : Entered name ∨ name ∈ schemaMaps)
    (members : Json.Members) : (pruneMembers siblings members).lookup name =
      (members.lookup name).map (pruneValue siblings name) := by
  have hs : name ∉ storeKeywords := by
    rcases h with h | h
    · exact h.1
    · exact not_store_of_map h
  have hr : name ≠ "$ref" := by
    rintro rfl
    revert h
    decide
  induction members with
  | nil => rfl
  | cons member rest ih =>
    obtain ⟨other, value⟩ := member
    rw [pruneMembers_cons, List.lookup_cons]
    by_cases hname : name = other
    · subst hname
      have hkept : dropped (name, value) = false := by simp [dropped, hs, hr]
      rw [hkept]
      simp
    · have hbeq : (name == other) = false := by simpa using hname
      rw [hbeq]
      split
      · exact ih
      · rw [List.lookup_cons, hbeq]
        exact ih

theorem prune_cases {P : Json → Json → Prop} (scalar : ∀ value, P value value)
    (array : ∀ items, P (.array items) (.array (items.map (prune siblings))))
    (object : ∀ members left, P (.object members) (.object left)) (value : Json) :
    P value (prune siblings value) := by
  cases value with
  | array items =>
    rw [prune_array]
    exact array items
  | object members =>
    obtain ⟨left, hleft⟩ := prune_object_shape siblings members
    rw [hleft]
    exact object members left
  | _ => exact scalar _

theorem string?_prune (value : Json) : (prune siblings value).string? = value.string? :=
  prune_cases siblings (P := fun v w => w.string? = v.string?) (fun _ => rfl) (fun _ => rfl)
    (fun _ _ => rfl) value

theorem isFalse_prune (value : Json) :
    prune siblings value = .bool false ↔ value = .bool false :=
  prune_cases siblings (P := fun v w => w = .bool false ↔ v = .bool false) (fun _ => Iff.rfl)
    (fun _ => by simp) (fun _ _ => by simp) value

theorem strings_prune (items : List Json) :
    (items.map (prune siblings)).mapM Json.string? = items.mapM Json.string? := by
  rw [List.mapM_map]
  exact congrArg (items.mapM ·) (funext (string?_prune siblings))

end Resolver

theorem inline_of_lacks (r : Resolver) {schema : Json} (hfree : schema.lacks "$ref" = true) :
    (r.inline schema).1 = .ok (prune r.siblings schema) := by
  have hpure : Sequential fun α (x : Id α) (y : Inline α) => y = pure x := by
    constructor
    · intro α a
      rfl
    · intro α β x y f g hx hf
      rw [hx, pure_bind]
      exact hf x
  have hnode : inlineNode r.siblings
      (follow r.retriever.answer r.siblings (r.depthFor schema) [] ⟨"", schema⟩) schema =
      pure (prune r.siblings schema) :=
    inlineNode_related hpure schema fun reference hm => absurd hm (not_meets_of_lacks hfree)
  rw [Resolver.inline, inlineWithin, hnode]
  rfl

end SchemaLogic
