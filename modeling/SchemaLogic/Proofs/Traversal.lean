import SchemaLogic.Proofs.Parts
import SchemaLogic.Reference.Resolver

/-! # What a traversal does with the references that it meets

A traversal runs in any monad. A relation between runs that sequencing keeps therefore holds between
two traversals of one node as soon as it holds wherever they follow a reference. -/
namespace SchemaLogic.Resolver

/-- The part of a keyword's value that a traversal takes for a schema. -/
inductive Enters : String → Json → Json → Prop where
  | schema {name value} : name ∉ storeKeywords → name ∉ dataKeywords →
      (name ∈ schemaMaps → value.members? = none) → Enters name value value
  | entry {name schemas key schema} : name ∈ schemaMaps → (key, schema) ∈ schemas →
      Enters name (.object schemas) schema

/-- A traversal of a node meets a reference, without following another one. Where keywords beside
a reference do not count, it ends at the reference. -/
inductive Meets (siblings : Bool) : Json → String → Prop where
  | here {members reference} : reference? members = some reference →
      Meets siblings (.object members) reference
  | item {items item reference} : item ∈ items → Meets siblings item reference →
      Meets siblings (.array items) reference
  | beside {members name value part reference} : reference? members = none ∨ siblings = true →
      (name, value) ∈ members → Enters name value part → Meets siblings part reference →
      Meets siblings (.object members) reference

theorem not_store_of_map {name : String} (h : name ∈ schemaMaps) : name ∉ storeKeywords := by
  intro k
  revert h
  simp only [storeKeywords, List.mem_cons, List.not_mem_nil, or_false] at k
  rcases k with rfl | rfl <;> decide

theorem not_data_of_map {name : String} (h : name ∈ schemaMaps) : name ∉ dataKeywords := by
  intro k
  revert h
  simp only [dataKeywords, List.mem_cons, List.not_mem_nil, or_false] at k
  rcases k with rfl | rfl | rfl | rfl <;> decide

/-- A relation between runs in two monads that results and sequencing keep. -/
structure Sequential {m n : Type → Type} [Monad m] [Monad n]
    (R : (α : Type) → m α → n α → Prop) : Prop where
  result : ∀ {α : Type} (a : α), R α (pure a) (pure a)
  sequence : ∀ {α β : Type} {x : m α} {y : n α} {f : α → m β} {g : α → n β},
    R α x y → (∀ a, R β (f a) (g a)) → R β (x >>= f) (y >>= g)

section Relation

variable {m n : Type → Type} [Monad m] [Monad n] {R : (α : Type) → m α → n α → Prop}
variable {siblings : Bool} {f : String → m Json} {g : String → n Json} (hR : Sequential R)
include hR

mutual

/-- Two traversals of a node are related if they are at the references that it meets. -/
theorem inlineNode_related : ∀ node : Json,
    (∀ reference, Meets siblings node reference → R _ (f reference) (g reference)) →
    R _ (inlineNode siblings f node) (inlineNode siblings g node)
  | .object members, h => by
    rw [inlineNode, inlineNode]
    cases hr : reference? members with
    | none =>
      have hm := inlineMembers_related members fun member hm part hp reference hr' =>
        h reference (.beside (.inl hr) hm hp hr')
      exact hR.sequence hm fun others => hR.result _
    | some reference =>
      refine hR.sequence (h reference (.here hr)) fun target => ?_
      cases hs : siblings with
      | false => exact hR.result _
      | true =>
        have hm := inlineMembers_related members fun member hm part hp reference hr' =>
          h reference (.beside (.inr hs) hm hp hr')
        rw [hs] at hm
        exact hR.sequence hm fun others => hR.result _
  | .array items, h => by
    rw [inlineNode, inlineNode]
    have hi := inlineItems_related items fun item hi reference hr => h reference (.item hi hr)
    exact hR.sequence hi fun items => hR.result _
  | .null, _ => hR.result _
  | .bool _, _ => hR.result _
  | .number _, _ => hR.result _
  | .string _, _ => hR.result _
termination_by structural node => node

theorem inlineItems_related : ∀ items : List Json,
    (∀ item ∈ items, ∀ reference, Meets siblings item reference → R _ (f reference) (g reference)) →
    R _ (inlineItems siblings f items) (inlineItems siblings g items)
  | [], _ => hR.result _
  | item :: rest, h => by
    rw [inlineItems, inlineItems]
    have hi := inlineNode_related item (h item (by simp))
    have hrest := inlineItems_related rest fun other ho => h other (.tail _ ho)
    exact hR.sequence hi fun item => hR.sequence hrest fun rest => hR.result _
termination_by structural items => items

theorem inlineMembers_related : ∀ members : Json.Members,
    (∀ member ∈ members, ∀ part, Enters member.1 member.2 part → ∀ reference,
      Meets siblings part reference → R _ (f reference) (g reference)) →
    R _ (inlineMembers siblings f members) (inlineMembers siblings g members)
  | [], _ => hR.result _
  | (name, value) :: rest, h => by
    rw [inlineMembers, inlineMembers]
    have hrest := inlineMembers_related rest fun other ho => h other (.tail _ ho)
    have here := h (name, value) (by simp)
    split
    · exact hrest
    · next hskip =>
      have hstore : name ∉ storeKeywords := by
        intro hs
        simp [hs] at hskip
      refine hR.sequence ?_ fun value => hR.sequence hrest fun rest => hR.result _
      split
      · exact hR.result _
      · next hdata =>
        have hdata : name ∉ dataKeywords := by simpa using hdata
        split
        · next hmap =>
          have hmap : name ∈ schemaMaps := by simpa using hmap
          exact inlineMap_related value hmap here
        · next hmap =>
          have hmap : name ∉ schemaMaps := by simpa using hmap
          exact inlineNode_related value (here value (.schema hstore hdata fun k => (hmap k).elim))
termination_by structural members => members

theorem inlineMap_related : ∀ (value : Json) {name : String}, name ∈ schemaMaps →
    (∀ part, Enters name value part → ∀ reference, Meets siblings part reference →
      R _ (f reference) (g reference)) →
    R _ (inlineMap siblings f value) (inlineMap siblings g value)
  | .object schemas, name, hmap, h => by
    rw [inlineMap, inlineMap]
    have hs := inlineSchemas_related schemas fun entry he => h entry.2 (.entry hmap he)
    exact hR.sequence hs fun schemas => hR.result _
  | .array items, name, hmap, h => by
    rw [inlineMap, inlineMap]
    have whole := h (.array items)
      (.schema (not_store_of_map hmap) (not_data_of_map hmap) fun _ => rfl)
    have hi := inlineItems_related items fun item hi reference hr => whole reference (.item hi hr)
    exact hR.sequence hi fun items => hR.result _
  | .null, _, _, _ => hR.result _
  | .bool _, _, _, _ => hR.result _
  | .number _, _, _, _ => hR.result _
  | .string _, _, _, _ => hR.result _
termination_by structural value => value

theorem inlineSchemas_related : ∀ schemas : Json.Members,
    (∀ entry ∈ schemas, ∀ reference, Meets siblings entry.2 reference →
      R _ (f reference) (g reference)) →
    R _ (inlineSchemas siblings f schemas) (inlineSchemas siblings g schemas)
  | [], _ => hR.result _
  | (name, schema) :: rest, h => by
    rw [inlineSchemas, inlineSchemas]
    have hs := inlineNode_related schema (h (name, schema) (by simp))
    have hrest := inlineSchemas_related rest fun other ho => h other (.tail _ ho)
    exact hR.sequence hs fun schema => hR.sequence hrest fun rest => hR.result _
termination_by structural schemas => schemas

end

end Relation

theorem inlineMap_eq {m : Type → Type} [Monad m] {siblings : Bool} {f : String → m Json}
    {value : Json} (h : value.members? = none) :
    inlineMap siblings f value = inlineNode siblings f value := by
  cases value with
  | object schemas => cases h
  | array items => rw [inlineMap, inlineNode]
  | _ => rfl

/-! ## Traversals that fail -/

section Failure

variable {siblings : Bool} {f : String → Option Json}

theorem inlineItems_some {items inlined : List Json}
    (h : inlineItems siblings f items = some inlined) :
    ∀ item ∈ items, ∃ node, inlineNode siblings f item = some node := by
  induction items generalizing inlined with
  | nil => intro item hi; cases hi
  | cons first rest ih =>
    rw [inlineItems] at h
    obtain ⟨node, hn, h⟩ := Option.bind_eq_some_iff.mp h
    obtain ⟨others, ho, -⟩ := Option.bind_eq_some_iff.mp h
    intro item hi
    rcases List.mem_cons.mp hi with rfl | hi
    · exact ⟨node, hn⟩
    · exact ih ho item hi

theorem inlineSchemas_some {schemas inlined : Json.Members}
    (h : inlineSchemas siblings f schemas = some inlined) :
    ∀ entry ∈ schemas, ∃ node, inlineNode siblings f entry.2 = some node := by
  induction schemas generalizing inlined with
  | nil => intro entry he; cases he
  | cons first rest ih =>
    rw [inlineSchemas] at h
    obtain ⟨node, hn, h⟩ := Option.bind_eq_some_iff.mp h
    obtain ⟨others, ho, -⟩ := Option.bind_eq_some_iff.mp h
    intro entry he
    rcases List.mem_cons.mp he with rfl | he
    · exact ⟨node, hn⟩
    · exact ih ho entry he

theorem inlineMembers_some {members inlined : Json.Members}
    (h : inlineMembers siblings f members = some inlined) {name : String} {value part : Json}
    (hm : (name, value) ∈ members) (hp : Enters name value part) :
    ∃ node, inlineNode siblings f part = some node := by
  induction members generalizing inlined with
  | nil => cases hm
  | cons first rest ih =>
    rw [inlineMembers] at h
    split at h
    · next hskip =>
      rcases List.mem_cons.mp hm with rfl | hm
      · -- Only a reference is left out here, and a string is no place to enter.
        cases hp with
        | schema hs hd hmap =>
          cases value <;> simp_all [Json.string?]
          exact ⟨_, rfl⟩
        | entry hmap _ => simp_all [not_store_of_map hmap, Json.string?]
      · exact ih h hm
    · obtain ⟨node, hn, h⟩ := Option.bind_eq_some_iff.mp h
      obtain ⟨others, ho, -⟩ := Option.bind_eq_some_iff.mp h
      rcases List.mem_cons.mp hm with rfl | hm
      · cases hp with
        | schema hs hd hmap =>
          rw [if_neg (by simpa using hd)] at hn
          split at hn
          · next k =>
            rw [inlineMap_eq (hmap (by simpa using k))] at hn
            exact ⟨node, hn⟩
          · exact ⟨node, hn⟩
        | entry hmap he =>
          rw [if_neg (by simpa using not_data_of_map hmap), if_pos (by simpa using hmap),
            inlineMap] at hn
          obtain ⟨schemas, hs, -⟩ := Option.bind_eq_some_iff.mp hn
          exact inlineSchemas_some hs _ he
      · exact ih ho hm

theorem inlineNode_some {node inlined : Json} (h : inlineNode siblings f node = some inlined)
    {reference : String} (hr : Meets siblings node reference) :
    ∃ target, f reference = some target := by
  induction hr generalizing inlined with
  | @here members reference hr =>
    rw [inlineNode, hr] at h
    obtain ⟨target, ht, -⟩ := Option.bind_eq_some_iff.mp h
    exact ⟨target, ht⟩
  | item hi _ ih =>
    rw [inlineNode] at h
    obtain ⟨items, hs, -⟩ := Option.bind_eq_some_iff.mp h
    obtain ⟨node, hn⟩ := inlineItems_some hs _ hi
    exact ih hn
  | @beside members name value part reference ho hm hp _ ih =>
    obtain ⟨others, hs⟩ : ∃ others, inlineMembers siblings f members = some others := by
      rw [inlineNode] at h
      cases hr : reference? members with
      | none =>
        rw [hr] at h
        obtain ⟨others, hs, -⟩ := Option.bind_eq_some_iff.mp h
        exact ⟨others, hs⟩
      | some reference =>
        have hs : siblings = true := ho.resolve_left (by simp [hr])
        rw [hr] at h
        obtain ⟨target, -, h⟩ := Option.bind_eq_some_iff.mp h
        rw [if_pos hs] at h
        obtain ⟨others, hs, -⟩ := Option.bind_eq_some_iff.mp h
        exact ⟨others, hs⟩
    obtain ⟨node, hn⟩ := inlineMembers_some hs hm hp
    exact ih hn

end Failure

/-! ## Where references stand -/

theorem mentions_item {items : List Json} {item : Json} (h : item ∈ items) :
    mentions item ⊆ mentions (.array items) := by
  rw [mentions]
  induction items with
  | nil => cases h
  | cons first rest ih =>
    rw [mentionsItems]
    rcases List.mem_cons.mp h with rfl | h
    · exact List.subset_append_left _ _
    · exact List.subset_append_of_subset_right _ (ih h)

theorem mentions_member {members : Json.Members} {name : String} {value : Json}
    (h : (name, value) ∈ members) : mentions value ⊆ mentions (.object members) := by
  rw [mentions]
  refine List.subset_append_of_subset_right _ ?_
  induction members with
  | nil => cases h
  | cons first rest ih =>
    rw [mentionsMembers]
    rcases List.mem_cons.mp h with rfl | h
    · exact List.subset_append_left _ _
    · exact List.subset_append_of_subset_right _ (ih h)

theorem mem_mentions {siblings : Bool} {node : Json} {reference : String}
    (h : Meets siblings node reference) : reference ∈ mentions node := by
  induction h with
  | here hr =>
    rw [mentions, hr]
    exact List.mem_append_left _ (by simp)
  | item hi _ ih => exact mentions_item hi ih
  | beside _ hm hp _ ih =>
    refine mentions_member hm ?_
    cases hp with
    | schema => exact ih
    | entry _ he => exact mentions_member he ih

theorem mentions_inside {part json : Json} (h : Json.Inside part json) :
    mentions part ⊆ mentions json := by
  induction h with
  | self => exact List.Subset.refl _
  | item hi _ ih => exact List.Subset.trans ih (mentions_item hi)
  | member hm _ ih => exact List.Subset.trans ih (mentions_member hm)

theorem mentions_resolve {document target : Json} {fragment : String}
    (h : Pointer.resolve document fragment = .ok target) :
    mentions target ⊆ mentions document :=
  mentions_inside (Pointer.resolve_inside h)

end SchemaLogic.Resolver
