import SchemaLogic.Proofs.Inlining

/-! # A resolver that is used again

Documents stay with a resolver from one schema to the next, also when a schema fails. They are what
the source would answer again, so a resolver in use gives what a new one gives; and a document that
came is never asked for twice. -/
namespace SchemaLogic

open Resolver

/-! ## One schema -/

/-- An address is asked for again only if asking for it has failed. -/
def Frugal (source : Source) (asked : List String) : Prop :=
  asked.Pairwise fun earlier later => earlier = later → ∃ cause, source earlier = .error cause

/-- The documents that were fetched are those of the source, and every address that was asked for is
answered from them if it can be. -/
structure Recalls (source : Source) (fetched : List (String × Json)) (asked : List String) :
    Prop where
  documents : ∀ uri document, fetched.lookup uri = some document → source uri = .ok document
  kept : ∀ uri ∈ asked, ∀ document, source uri = .ok document →
    fetched.lookup uri = some document
  frugal : Frugal source asked

namespace Recalls

variable {source : Source} {fetched : List (String × Json)} {asked : List String} {uri : String}

theorem new (source : Source) : Recalls source [] [] where
  documents uri document h := by cases h
  kept uri h := by cases h
  frugal := List.Pairwise.nil

theorem frugal_ask (h : Recalls source fetched asked) (hf : fetched.lookup uri = none) :
    Frugal source (asked ++ [uri]) := by
  refine List.pairwise_append.mpr ⟨h.frugal, List.pairwise_singleton _ _, ?_⟩
  intro earlier he later hl heq
  rw [heq, List.mem_singleton.mp hl] at he ⊢
  cases hs : source uri with
  | error cause => exact ⟨cause, rfl⟩
  | ok document =>
    have found := h.kept uri he document hs
    rw [hf] at found
    cases found

theorem fail {cause : String} (h : Recalls source fetched asked)
    (hf : fetched.lookup uri = none) (hs : source uri = .error cause) :
    Recalls source fetched (asked ++ [uri]) where
  documents := h.documents
  kept other ho document hd := by
    rcases List.mem_append.mp ho with ho | ho
    · exact h.kept other ho document hd
    · cases List.mem_singleton.mp ho
      rw [hs] at hd
      cases hd
  frugal := h.frugal_ask hf

theorem lookup_keep (hf : fetched.lookup uri = none) (document : Json) (other : String) :
    (fetched ++ [(uri, document)]).lookup other =
      if other = uri then some document else fetched.lookup other := by
  rw [List.lookup_append]
  by_cases hu : other = uri
  · subst hu
    simp [hf]
  · have hbeq : (other == uri) = false := by simpa using hu
    simp [List.lookup_cons, hbeq, hu]

theorem keep {document : Json} (h : Recalls source fetched asked)
    (hf : fetched.lookup uri = none) (hs : source uri = .ok document) :
    Recalls source (fetched ++ [(uri, document)]) (asked ++ [uri]) where
  documents other found hl := by
    rw [lookup_keep hf] at hl
    split at hl
    · next hu =>
      cases hl
      exact hu ▸ hs
    · exact h.documents other found hl
  kept other ho found hd := by
    rw [lookup_keep hf]
    by_cases hu : other = uri
    · rw [if_pos hu]
      rw [hu, hs] at hd
      cases hd
      rfl
    · rw [if_neg hu]
      rcases List.mem_append.mp ho with ho | ho
      · exact h.kept other ho found hd
      · exact absurd (List.mem_singleton.mp ho) hu
  frugal := h.frugal_ask hf

end Recalls

def Maintains (I : Inlining → Prop) (α : Type) (x : Inline α) : Prop :=
  ∀ s result t, I s → x.run.run s = some (result, t) → I t

section Maintains

variable {I : Inlining → Prop}

theorem maintains_bind {α β : Type} {x : Inline α} {f : α → Inline β} (hx : Maintains I α x)
    (hf : ∀ a, Maintains I β (f a)) : Maintains I β (x >>= f) := by
  intro s result t hs hrun
  rcases hrun' : x.run.run s with _ | ⟨e | a, u⟩
  · rw [run_bind_none hrun'] at hrun
    cases hrun
  · rw [run_bind_error hrun'] at hrun
    cases hrun
    exact hx s _ t hs hrun'
  · rw [run_bind_ok hrun'] at hrun
    exact hf a u result t (hx s _ u hs hrun') hrun

theorem maintains_result {α : Type} (r : Except ReferenceError α) :
    Maintains I α (ExceptT.mk (pure r)) := by
  intro s result t hs hrun
  cases hrun
  exact hs

theorem maintains_modify {g : Inlining → Inlining} (hg : ∀ s, I s → I (g s)) :
    Maintains I PUnit (modify g) := by
  intro s result t hs hrun
  cases hrun
  exact hg s hs

theorem sequential_maintains : Sequential fun α (x : Inline α) (_ : Id α) => Maintains I α x where
  result a := maintains_result (.ok a)
  sequence hx hf := maintains_bind hx hf

theorem maintains_node {siblings : Bool} {f : String → Inline Json}
    (hf : ∀ reference, Maintains I Json (f reference)) (node : Json) :
    Maintains I Json (inlineNode siblings f node) :=
  inlineNode_related (g := fun _ => (Json.null : Id Json)) sequential_maintains node
    fun reference _ => hf reference

end Maintains

section Follow

variable {source : Source} {earlier : List String}

def Inlining.Recalls (source : Source) (earlier : List String) (s : Inlining) : Prop :=
  SchemaLogic.Recalls source s.fetched (earlier ++ s.asked)

theorem maintains_fetch (uri : String) :
    Maintains (Inlining.Recalls source earlier) Json (fetch source uri) := by
  intro s result t hs hrun
  obtain ⟨document, hf, hfetch⟩ | ⟨document, hf, hd, hfetch⟩ | ⟨cause, hf, hd, hfetch⟩ :=
    fetch_cases source s uri
  · cases hfetch.symm.trans hrun
    exact hs
  · cases hfetch.symm.trans hrun
    have kept := SchemaLogic.Recalls.keep hs hf hd
    rw [List.append_assoc] at kept
    exact kept
  · cases hfetch.symm.trans hrun
    have failed := SchemaLogic.Recalls.fail hs hf hd
    rw [List.append_assoc] at failed
    exact failed

theorem maintains_locate (home : Home) (reference : String) :
    Maintains (Inlining.Recalls source earlier) (Home × Json) (locate source home reference) := by
  have visits (location : String) :
      Maintains (Inlining.Recalls source earlier) Home (visit source home location) := by
    rw [visit]
    split
    · exact maintains_result (.ok home)
    · exact maintains_bind (maintains_fetch location) fun document => maintains_result (.ok _)
  rw [locate]
  refine maintains_bind (visits _) fun there => ?_
  split
  · exact maintains_result (.ok _)
  · exact maintains_result (.error _)

theorem maintains_follow (siblings : Bool) (depth : Nat) (progress : List String) (home : Home)
    (reference : String) : Maintains (Inlining.Recalls source earlier) Json
      (follow source siblings depth progress home reference) := by
  -- By induction on the depth. Targets that are inlined concern neither documents nor what was
  -- asked for.
  induction depth generalizing progress home reference with
  | zero =>
    intro s result t _ hrun
    cases hrun
  | succ depth ih =>
    intro s result t hs hrun
    by_cases hk : key home reference ∈ progress
    · rw [follow_cyclic hk] at hrun
      cases hrun
      exact hs
    · cases hl : s.inlined.lookup (key home reference) with
      | some json =>
        rw [follow_inlined hk hl] at hrun
        cases hrun
        exact hs
      | none =>
        rw [follow_located hk hl] at hrun
        refine maintains_bind (maintains_locate home reference) (fun found => ?_) s result t hs hrun
        refine maintains_bind (maintains_node (ih _ found.1) found.2) fun json => ?_
        exact maintains_bind (maintains_modify fun s hs => hs) fun _ => maintains_result (.ok json)

end Follow

section Runs

variable {source : Source} {siblings : Bool} {fetched : List (String × Json)}
variable {asked : List String} {schema : Json}

theorem recalls_run {depth : Nat} {result : Except ReferenceError Json} {final : Inlining}
    (h : Recalls source fetched asked)
    (hrun : inlineWithin source siblings fetched schema depth = some (result, final)) :
    Recalls source final.fetched (asked ++ final.asked) := by
  have start : Inlining.Recalls source asked ⟨fetched, [], []⟩ := by
    rw [Inlining.Recalls, List.append_nil]
    exact h
  exact maintains_node (maintains_follow siblings depth [] ⟨"", schema⟩) schema
    _ result final start hrun

theorem corpus_recalls (h : Recalls source fetched asked) :
    Corpus.of source siblings fetched schema = Corpus.of source siblings [] schema := by
  have reach : source.recall fetched = source.recall [] := by
    funext uri
    rw [Source.recall, Source.recall]
    cases hf : fetched.lookup uri with
    | none => rfl
    | some document =>
      rw [h.documents uri document hf]
      rfl
  rw [Corpus.of, Corpus.of, reach]

end Runs

/-! ## One schema after another -/

/-- A resolver in use: how it is set, the documents that it has fetched, and all addresses that it
has asked for. -/
structure InUse where
  siblings : Bool
  fetched : List (String × Json)
  asked : List String

/-- The states of a resolver between any runs on schemas, failed or not, and changes of its setting;
a run may have gone to any depth. -/
inductive InUse.Reachable (source : Source) : InUse → Prop where
  | new (siblings : Bool) : Reachable source ⟨siblings, [], []⟩
  | setting {s} (enabled : Bool) : Reachable source s →
      Reachable source { s with siblings := enabled }
  | run {s schema depth result final} : Reachable source s →
      inlineWithin source s.siblings s.fetched schema depth = some (result, final) →
      Reachable source { s with fetched := final.fetched, asked := s.asked ++ final.asked }

theorem reachable_recalls {source : Source} {s : InUse} (h : s.Reachable source) :
    Recalls source s.fetched s.asked := by
  induction h with
  | new siblings => exact .new source
  | setting enabled _ ih => exact ih
  | run _ hrun ih => exact recalls_run ih hrun

inductive Request where
  | setting (siblings : Bool)
  | inline (schema : Json)

/-- A resolver after some requests, and the addresses that it has asked for. -/
def Resolver.serve (r : Resolver) (asked : List String) : List Request → Resolver × List String
  | [] => (r, asked)
  | .setting siblings :: rest => serve { r with siblings := siblings } asked rest
  | .inline schema :: rest =>
    serve (r.inline schema).2.1 (asked ++ (r.inline schema).2.2) rest

theorem serve_reachable {r : Resolver} {asked : List String}
    (h : InUse.Reachable r.retriever.answer ⟨r.siblings, r.fetched, asked⟩)
    (requests : List Request) :
    (r.serve asked requests).1.retriever = r.retriever ∧
      InUse.Reachable r.retriever.answer ⟨(r.serve asked requests).1.siblings,
        (r.serve asked requests).1.fetched, (r.serve asked requests).2⟩ := by
  induction requests generalizing r asked with
  | nil => exact ⟨rfl, h⟩
  | cons request rest ih =>
    cases request with
    | setting siblings => exact ih (.setting siblings h)
    | inline schema =>
      obtain ⟨final, hfinal⟩ :=
        r.inlineWithin_eq schema (r.outcome_inline schema (Nat.le_refl _))
      have run : r.inline schema =
          ((r.inline schema).1, { r with fetched := final.fetched }, final.asked) := by
        rw [Resolver.inline, hfinal]
      rw [Resolver.serve, run]
      exact ih (.run h hfinal)

/-- With the same retriever and setting, documents of the source at hand change no result. -/
theorem inline_fetched {r : Resolver} {asked : List String}
    (h : Recalls r.retriever.answer r.fetched asked) (schema : Json) :
    (r.inline schema).1 = (Resolver.inline { r with fetched := [] } schema).1 := by
  have used := r.outcome_inline schema (Nat.le_max_left _
    (depthFor { r with fetched := [] } schema))
  have new := outcome_inline { r with fetched := [] } schema
    (Nat.le_max_right (r.depthFor schema) _)
  have same : r.corpus schema = corpus { r with fetched := [] } schema := corpus_recalls h
  rw [same] at used
  exact Option.some.inj (used.symm.trans new)

/-- Between any requests, a resolver gives for every schema what a new one with its setting gives,
and among all addresses that it has asked for none comes again after it was answered. -/
theorem reused_as_new :
    (∀ (source : Source) (s : InUse), s.Reachable source →
      (∀ schema result, Ends (inlineWithin source s.siblings s.fetched schema) result ↔
        Ends (inlineWithin source s.siblings [] schema) result) ∧
      Frugal source s.asked) ∧
    ∀ (r : Resolver) (requests : List Request), r.fetched = [] →
      (∀ schema, ((r.serve [] requests).1.inline schema).1 =
        (Resolver.inline
          { r with siblings := (r.serve [] requests).1.siblings } schema).1) ∧
      Frugal r.retriever.answer (r.serve [] requests).2 := by
  constructor
  · intro source s hs
    have recalls := reachable_recalls hs
    refine ⟨fun schema result => ?_, recalls.frugal⟩
    rw [ends_inlineWithin, ends_inlineWithin, corpus_recalls recalls]
  · intro r requests hr
    have start : InUse.Reachable r.retriever.answer ⟨r.siblings, r.fetched, []⟩ := by
      rw [hr]
      exact .new r.siblings
    obtain ⟨retriever, reachable⟩ := serve_reachable start requests
    have recalls := reachable_recalls reachable
    constructor
    · intro schema
      rw [← retriever] at recalls
      rw [inline_fetched recalls schema, retriever, ← hr]
    · exact recalls.frugal

/-- A schema fails after one of its documents came; the other is asked for again, and fails again;
then the setting changes, and the document that came is used once more. -/
theorem failed_address_asked_again :
    let document : Json := .object [("a", .object [("type", .string "array")])]
    let r : Resolver := { retriever := .ofList [("there", document)] }
    let there : Json := .object [("$ref", .string "there#/a"), ("title", .string "t")]
    let gone : Json := .object [("$ref", .string "gone")]
    let requests : List Request :=
      [.inline (.object [("allOf", .array [there, gone])]), .inline gone, .setting true]
    let used := r.serve [] requests
    r.fetched = [] ∧
      InUse.Reachable r.retriever.answer ⟨used.1.siblings, used.1.fetched, used.2⟩ ∧
      used.1.fetched = [("there", document)] ∧ used.2 = ["there", "gone", "gone"] ∧
      (used.1.inline there).2.2 = [] ∧
      (used.1.inline there).1 = .ok (.object [("allOf", .array [
        .object [("type", .string "array")], .object [("title", .string "t")]])]) ∧
      (used.1.inline there).1 = (Resolver.inline { r with siblings := true } there).1 ∧
      (∀ schema result,
        Ends (inlineWithin r.retriever.answer true used.1.fetched schema) result ↔
          Ends (inlineWithin r.retriever.answer true [] schema) result) ∧
      Frugal r.retriever.answer ["there", "gone", "gone"] := by
  intro document r there gone requests used
  have new : InUse.Reachable r.retriever.answer ⟨r.siblings, r.fetched, []⟩ := .new false
  have reachable := (serve_reachable new requests).2
  have any := reused_as_new.1 r.retriever.answer _ reachable
  have listed := reused_as_new.2 r requests rfl
  exact ⟨rfl, reachable, rfl, rfl, rfl, rfl, listed.1 there, any.1, listed.2⟩

end SchemaLogic
