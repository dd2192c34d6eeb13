import SchemaLogic.Proofs.Inlining
import SchemaLogic.Proofs.Parts

/-! # Inlined schemas are left as they are

What a run returns holds no store and no reference, except inside data and under the names of a map
from names to schemas. A second run reads every part in the way in which the first one wrote it. -/
namespace SchemaLogic

namespace Resolver

/-- A traversal gives back what it is given, and follows nothing: this does not depend on what
references lead to. -/
structure Returns {α : Type}
    (traverse : {m : Type → Type} → [Monad m] → Bool → (String → m Json) → α → m α) (a : α) :
    Prop where
  unchanged : ∀ {m : Type → Type} [Monad m] [LawfulMonad m] (siblings : Bool)
    (f : String → m Json), traverse siblings f a = pure a

abbrev Settled : Json → Prop := Returns @inlineNode

def textualReference : Json → Bool
  | .object members => members.all fun member => member.1 != "$ref" || member.2.string?.isSome
  | _ => true

/-! ## Settled parts -/

theorem settled_array {items : List Json} (h : Returns @inlineItems items) :
    Settled (.array items) := by
  constructor
  intro m _ _ siblings f
  rw [inlineNode, h.unchanged siblings f, pure_bind]

theorem settled_object {members : Json.Members} (hr : reference? members = none)
    (h : Returns @inlineMembers members) : Settled (.object members) := by
  constructor
  intro m _ _ siblings f
  rw [inlineNode, hr]
  dsimp only
  rw [h.unchanged siblings f, pure_bind]

theorem returns_map {schemas : Json.Members} (h : Returns @inlineSchemas schemas) :
    Returns @inlineMap (.object schemas) := by
  constructor
  intro m _ _ siblings f
  rw [inlineMap, h.unchanged siblings f, pure_bind]

theorem returns_item {item : Json} {rest : List Json} (hi : Settled item)
    (hrest : Returns @inlineItems rest) : Returns @inlineItems (item :: rest) := by
  constructor
  intro m _ _ siblings f
  rw [inlineItems, hi.unchanged siblings f, pure_bind, hrest.unchanged siblings f, pure_bind]

theorem returns_schema {name : String} {schema : Json} {rest : Json.Members} (hs : Settled schema)
    (hrest : Returns @inlineSchemas rest) : Returns @inlineSchemas ((name, schema) :: rest) := by
  constructor
  intro m _ _ siblings f
  rw [inlineSchemas, hs.unchanged siblings f, pure_bind, hrest.unchanged siblings f, pure_bind]

/-- The value of a keyword is left as it is, in the way in which the keyword is read. -/
def ReturnsUnder (name : String) (value : Json) : Prop :=
  name ∈ dataKeywords ∨ name ∉ dataKeywords ∧
    (name ∈ schemaMaps ∧ Returns @inlineMap value ∨ name ∉ schemaMaps ∧ Settled value)

theorem returns_member {name : String} {value : Json} {rest : Json.Members}
    (hs : name ∉ storeKeywords) (hr : name ≠ "$ref") (hv : ReturnsUnder name value)
    (hrest : Returns @inlineMembers rest) : Returns @inlineMembers ((name, value) :: rest) := by
  constructor
  intro m _ _ siblings f
  have kept :
      ¬ (storeKeywords.contains name || (name == "$ref" && value.string?.isSome)) = true := by
    simp [hs, hr]
  have here : (if dataKeywords.contains name then pure value
      else if schemaMaps.contains name then inlineMap siblings f value
      else inlineNode siblings f value) = (pure value : m Json) := by
    rcases hv with hd | ⟨hd, ⟨hm, hv⟩ | ⟨hm, hv⟩⟩
    · rw [if_pos (by simpa using hd)]
    · rw [if_neg (by simpa using hd), if_pos (by simpa using hm), hv.unchanged siblings f]
    · rw [if_neg (by simpa using hd), if_neg (by simpa using hm), hv.unchanged siblings f]
  rw [inlineMembers, if_neg kept, here, pure_bind, hrest.unchanged siblings f, pure_bind]

theorem settled_combine {target : Json} {others : Json.Members} (ht : Settled target)
    (ho : Settled (.object others)) : Settled (combine target others) := by
  rw [combine]
  split
  · exact ht
  · have nothing : Returns @inlineItems [] := ⟨fun _ _ => rfl⟩
    have both : Settled (.array [target, .object others]) :=
      settled_array (returns_item ht (returns_item ho nothing))
    have alone : Returns @inlineMembers [] := ⟨fun _ _ => rfl⟩
    have under : ReturnsUnder "allOf" (.array [target, .object others]) :=
      .inr ⟨by decide, .inr ⟨by decide, both⟩⟩
    exact settled_object rfl (returns_member (by decide) (by decide) under alone)

/-! ## What a run returns -/

section Results

variable {siblings : Bool} {f : String → Option Json}

def LeadsToSettled (f : String → Option Json) : Prop :=
  ∀ reference target, f reference = some target → Settled target

mutual

theorem inlineNode_settled (hf : LeadsToSettled f) : ∀ {inlined : Json} (node : Json),
    node.throughout textualReference = true → inlineNode siblings f node = some inlined →
    Settled inlined
  | inlined, .object members, ht, h => by
    have others {left : Json.Members} (hl : inlineMembers siblings f members = some left) :
        Settled (.object left) := by
      obtain ⟨hr, hreturns⟩ := inlineMembers_returns hf members (Json.throughout_object.mp ht) hl
      exact settled_object hr hreturns
    rw [inlineNode] at h
    cases hr : reference? members with
    | none =>
      rw [hr] at h
      obtain ⟨left, hl, h⟩ := Option.bind_eq_some_iff.mp h
      cases h
      exact others hl
    | some reference =>
      rw [hr] at h
      obtain ⟨target, htarget, h⟩ := Option.bind_eq_some_iff.mp h
      have target := hf reference target htarget
      split at h
      · obtain ⟨left, hl, h⟩ := Option.bind_eq_some_iff.mp h
        cases h
        exact settled_combine target (others hl)
      · cases h
        exact target
  | inlined, .array items, ht, h => by
    rw [inlineNode] at h
    obtain ⟨left, hl, h⟩ := Option.bind_eq_some_iff.mp h
    cases h
    exact settled_array (inlineItems_returns hf items (Json.throughout_array.mp ht).2 hl)
  | inlined, .null, _, h => by cases h; exact ⟨fun _ _ => rfl⟩
  | inlined, .bool _, _, h => by cases h; exact ⟨fun _ _ => rfl⟩
  | inlined, .number _, _, h => by cases h; exact ⟨fun _ _ => rfl⟩
  | inlined, .string _, _, h => by cases h; exact ⟨fun _ _ => rfl⟩
termination_by structural _ node => node

theorem inlineItems_returns (hf : LeadsToSettled f) : ∀ {left : List Json} (items : List Json),
    (∀ item ∈ items, item.throughout textualReference = true) →
    inlineItems siblings f items = some left → Returns @inlineItems left
  | left, [], _, h => by cases h; exact ⟨fun _ _ => rfl⟩
  | left, item :: rest, ht, h => by
    rw [inlineItems] at h
    obtain ⟨first, hfirst, h⟩ := Option.bind_eq_some_iff.mp h
    obtain ⟨others, ho, h⟩ := Option.bind_eq_some_iff.mp h
    cases h
    have hitem := inlineNode_settled hf item (ht item (by simp)) hfirst
    exact returns_item hitem (inlineItems_returns hf rest (fun other h => ht other (.tail _ h)) ho)
termination_by structural _ items => items

/-- No reference is left among the keywords: one that is a string is left out, and there are no
others. -/
theorem inlineMembers_returns (hf : LeadsToSettled f) : ∀ {left : Json.Members}
    (members : Json.Members),
    (textualReference (.object members) = true ∧
      ∀ member ∈ members, member.2.throughout textualReference = true) →
    inlineMembers siblings f members = some left →
    reference? left = none ∧ Returns @inlineMembers left
  | left, [], _, h => by
    cases h
    exact ⟨rfl, ⟨fun _ _ => rfl⟩⟩
  | left, (name, value) :: rest, ht, h => by
    obtain ⟨href, ht⟩ := ht
    rw [textualReference, List.all_cons, Bool.and_eq_true] at href
    have hrest {others : Json.Members} (ho : inlineMembers siblings f rest = some others) :=
      inlineMembers_returns hf rest ⟨href.2, fun other h => ht other (.tail _ h)⟩ ho
    rw [inlineMembers] at h
    split at h
    · exact hrest h
    · next kept =>
      obtain ⟨first, hfirst, h⟩ := Option.bind_eq_some_iff.mp h
      obtain ⟨others, ho, h⟩ := Option.bind_eq_some_iff.mp h
      cases h
      have hs : name ∉ storeKeywords := by
        intro hs
        simp [hs] at kept
      have hr : name ≠ "$ref" := by
        rintro rfl
        simp_all
      have hvalue := ht (name, value) (by simp)
      have under : ReturnsUnder name first := by
        by_cases hd : name ∈ dataKeywords
        · exact .inl hd
        · rw [if_neg (by simpa using hd)] at hfirst
          by_cases hm : name ∈ schemaMaps
          · rw [if_pos (by simpa using hm)] at hfirst
            exact .inr ⟨hd, .inl ⟨hm, inlineMap_returns hf value hvalue hfirst⟩⟩
          · rw [if_neg (by simpa using hm)] at hfirst
            exact .inr ⟨hd, .inr ⟨hm, inlineNode_settled hf value hvalue hfirst⟩⟩
      obtain ⟨hnone, hreturns⟩ := hrest ho
      constructor
      · have hbeq : ("$ref" == name) = false := by simpa using hr.symm
        rw [reference?, List.lookup_cons, hbeq]
        exact hnone
      · exact returns_member hs hr under hreturns
termination_by structural _ members => members

theorem inlineMap_returns (hf : LeadsToSettled f) : ∀ {left : Json} (value : Json),
    value.throughout textualReference = true → inlineMap siblings f value = some left →
    Returns @inlineMap left
  | left, .object schemas, ht, h => by
    rw [inlineMap] at h
    obtain ⟨others, ho, h⟩ := Option.bind_eq_some_iff.mp h
    cases h
    exact returns_map (inlineSchemas_returns hf schemas (Json.throughout_object.mp ht).2 ho)
  | left, .array items, ht, h => by
    rw [inlineMap] at h
    obtain ⟨others, ho, h⟩ := Option.bind_eq_some_iff.mp h
    cases h
    have hitems := inlineItems_returns hf items (Json.throughout_array.mp ht).2 ho
    constructor
    intro m _ _ siblings g
    exact (inlineMap_eq rfl).trans ((settled_array hitems).unchanged siblings g)
  | left, .null, _, h => by cases h; exact ⟨fun _ _ => rfl⟩
  | left, .bool _, _, h => by cases h; exact ⟨fun _ _ => rfl⟩
  | left, .number _, _, h => by cases h; exact ⟨fun _ _ => rfl⟩
  | left, .string _, _, h => by cases h; exact ⟨fun _ _ => rfl⟩
termination_by structural _ value => value

theorem inlineSchemas_returns (hf : LeadsToSettled f) : ∀ {left : Json.Members}
    (schemas : Json.Members),
    (∀ entry ∈ schemas, entry.2.throughout textualReference = true) →
    inlineSchemas siblings f schemas = some left → Returns @inlineSchemas left
  | left, [], _, h => by cases h; exact ⟨fun _ _ => rfl⟩
  | left, (name, schema) :: rest, ht, h => by
    rw [inlineSchemas] at h
    obtain ⟨first, hfirst, h⟩ := Option.bind_eq_some_iff.mp h
    obtain ⟨others, ho, h⟩ := Option.bind_eq_some_iff.mp h
    cases h
    have hschema := inlineNode_settled hf schema (ht (name, schema) (by simp)) hfirst
    exact returns_schema hschema
      (inlineSchemas_returns hf rest (fun other h => ht other (.tail _ h)) ho)
termination_by structural _ schemas => schemas

end

end Results

end Resolver

open Resolver

/-! ## Whole schemas -/

def Corpus.Textual (c : Corpus) : Prop :=
  ∀ uri document, c.document uri = .ok document → document.throughout textualReference = true

section Corpus

variable {c : Corpus} {a : Address}

theorem Corpus.Textual.target (h : c.Textual) {node : Json} (hn : c.target a = .ok node) :
    node.throughout textualReference = true := by
  unfold Corpus.target at hn
  split at hn
  · next document hd =>
    exact Json.throughout_inside (h a.uri document hd) (Pointer.resolve_inside hn)
  · cases hn

theorem settled_of_expand (h : c.Textual) {depth : Nat} {json : Json}
    (he : c.expand depth a = some json) : Settled json := by
  -- By induction on the depth: targets of references unfold to settled schemas before the schema
  -- that refers to them does.
  induction depth generalizing a json with
  | zero => cases he
  | succ depth ih =>
    rw [Corpus.expand] at he
    split at he
    · next node hn =>
      have leads : LeadsToSettled fun reference => c.expand depth (a.refer reference) :=
        fun reference target ht => ih ht
      exact inlineNode_settled leads node (h.target hn) he
    · cases he

end Corpus

/-- Every resolver gives a schema back as it is and asks for no document, and so does a run with
any source of documents. -/
def Unchanged (schema : Json) : Prop :=
  (∀ r : Resolver, r.inline schema = (.ok schema, r, [])) ∧
    ∀ source siblings fetched depth,
      inlineWithin source siblings fetched schema depth = some (.ok schema, ⟨fetched, [], []⟩)

theorem unchanged_of_settled {schema : Json} (h : Settled schema) : Unchanged schema := by
  have runs (source : Source) (siblings : Bool) (fetched : List (String × Json)) (depth : Nat) :
      inlineWithin source siblings fetched schema depth =
        some (.ok schema, ⟨fetched, [], []⟩) := by
    rw [inlineWithin, h.unchanged siblings]
    rfl
  constructor
  · intro r
    rw [Resolver.inline, runs]
  · exact runs

section Runs

variable {source : Source} {siblings : Bool} {fetched : List (String × Json)} {schema : Json}

theorem textual_of (hschema : schema.throughout textualReference = true)
    (hdocuments : ∀ uri document, source.recall fetched uri = .ok document →
      document.throughout textualReference = true) :
    (Corpus.of source siblings fetched schema).Textual := by
  intro uri document hd
  change (if uri.isEmpty = true then _ else _) = _ at hd
  split at hd
  · cases hd
    exact hschema
  · exact hdocuments uri document hd

theorem settled_of_run {depth : Nat} {inlined : Json} {final : Inlining}
    (hc : (Corpus.of source siblings fetched schema).Textual)
    (h : inlineWithin source siblings fetched schema depth = some (.ok inlined, final)) :
    Settled inlined := by
  obtain ⟨n, hn⟩ := (inlineWithin_mirrors source siblings fetched schema depth).result
    (sound_start source siblings fetched schema) h
  have root := target_root source siblings fetched schema
  exact settled_of_expand hc (expand_of_outcome root hn)

theorem inlineWithin_of_inline {r : Resolver} {inlined : Json}
    (h : (r.inline schema).1 = .ok inlined) : ∃ final,
      inlineWithin r.retriever.answer r.siblings r.fetched schema (r.depthFor schema) =
        some (.ok inlined, final) := by
  rw [← h]
  exact r.inlineWithin_eq schema (r.outcome_inline schema (Nat.le_refl _))

end Runs

/-- A schema that a run gives is unchanged by every further one, if members named `$ref` are strings
in the schema and in all documents within reach. -/
theorem inlined_unchanged (source : Source) (fetched : List (String × Json)) {schema : Json}
    (hschema : schema.throughout textualReference = true)
    (hdocuments : ∀ uri document, source.recall fetched uri = .ok document →
      document.throughout textualReference = true) :
    (∀ siblings depth inlined final,
      inlineWithin source siblings fetched schema depth = some (.ok inlined, final) →
      Unchanged inlined) ∧
    ∀ (r : Resolver) (inlined : Json), r.retriever.answer = source → r.fetched = fetched →
      (r.inline schema).1 = .ok inlined → Unchanged inlined := by
  have run (siblings : Bool) (depth : Nat) (inlined : Json) (final : Inlining)
      (h : inlineWithin source siblings fetched schema depth = some (.ok inlined, final)) :
      Unchanged inlined :=
    unchanged_of_settled (settled_of_run (textual_of hschema hdocuments) h)
  constructor
  · exact run
  · rintro r inlined rfl rfl h
    obtain ⟨final, hfinal⟩ := inlineWithin_of_inline h
    exact run r.siblings (r.depthFor schema) inlined final hfinal

/-- Reference texts inside data and among the names of a map stay, and a map of another document is
taken for a schema with a keyword beside it. -/
theorem kept_texts_unchanged :
    let other : Json := .object [
      ("properties", .object [("const", .object [("$ref", .string "#/nowhere")]),
        ("definitions", .null), ("items", .object [("$ref", .string "#/title")])]),
      ("title", .string "t")]
    let schema : Json := .object [
      ("items", .object [("$ref", .string "other#/properties"), ("type", .string "array")]),
      ("properties", .object [("$ref", .string "p"), ("definitions", .bool true)])]
    let inlined : Json := .object [
      ("items", .object [("allOf", .array [
        .object [("const", .object [("$ref", .string "#/nowhere")]), ("items", .string "t")],
        .object [("type", .string "array")]])]),
      ("properties", .object [("$ref", .string "p"), ("definitions", .bool true)])]
    let r : Resolver := { retriever := .ofList [("other", other)], siblings := true }
    schema.throughout textualReference = true ∧ other.throughout textualReference = true ∧
      (r.inline schema).1 = .ok inlined ∧ Unchanged inlined := by
  intro other schema inlined r
  have hschema : schema.throughout textualReference = true := by decide
  have hother : other.throughout textualReference = true := by decide
  have hinline : (r.inline schema).1 = .ok inlined := rfl
  refine ⟨hschema, hother, hinline, ?_⟩
  refine (inlined_unchanged r.retriever.answer [] hschema ?_).2 r inlined rfl rfl hinline
  intro uri document hd
  rcases Source.recall_ok hd with hf | ha
  · cases hf
  · have hmem : (uri, document) ∈ [("other", other)] := Retriever.mem_all ha
    cases List.mem_singleton.mp hmem
    exact hother

end SchemaLogic
