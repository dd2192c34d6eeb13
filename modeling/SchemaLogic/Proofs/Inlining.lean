import SchemaLogic.Proofs.Unfolding

/-! # Inlining is unfolding

A run keeps the documents that it has fetched and the targets that it has inlined. A target is kept
once it is unfolded to its end, so nothing below it can lead back to a reference in progress: what
is kept is what unfolding would give again. -/
namespace SchemaLogic

open Relation (TransGen)
open Resolver (inlineNode Sequential)

def Source.recall (source : Source) (fetched : List (String × Json)) (uri : String) :
    Except ReferenceError Json :=
  match fetched.lookup uri with
  | some document => .ok document
  | none =>
    match source uri with
    | .ok document => .ok document
    | .error cause => .error (.unretrievable uri cause)

theorem Source.recall_ok {source : Source} {fetched : List (String × Json)} {uri : String}
    {document : Json} (h : source.recall fetched uri = .ok document) :
    (uri, document) ∈ fetched ∨ source uri = .ok document := by
  unfold Source.recall at h
  split at h
  · next hf =>
    cases h
    exact .inl (Json.mem_of_lookup hf)
  · split at h
    · next hs =>
      cases h
      exact .inr hs
    · cases h

def Corpus.of (source : Source) (siblings : Bool) (fetched : List (String × Json))
    (schema : Json) : Corpus where
  siblings := siblings
  document uri := if uri.isEmpty then .ok schema else source.recall fetched uri

theorem target_root (source : Source) (siblings : Bool) (fetched : List (String × Json))
    (schema : Json) : (Corpus.of source siblings fetched schema).target .root = .ok schema := rfl

/-- What a run keeps is right: its documents are those of the corpus, and targets that it has
inlined are unfolded. -/
structure Inlining.Sound (c : Corpus) (source : Source) (s : Inlining) : Prop where
  documents : ∀ uri, uri.isEmpty = false → c.document uri = source.recall s.fetched uri
  targets : ∀ place json, s.inlined.lookup place = some json →
    ∃ a depth, Address.key a = place ∧ c.expand depth a = some json

structure Home.Holds (c : Corpus) (home : Home) (a : Address) : Prop where
  uri : home.uri = a.uri
  document : c.document a.uri = .ok home.document

theorem key_refer {c : Corpus} {home : Home} {a : Address} (h : home.Holds c a)
    (reference : String) : Resolver.key home reference = (a.refer reference).key := by
  rw [Resolver.key, Address.key, Address.refer, h.uri]

/-! ## Runs -/

section Run

variable {α β : Type} {x : Inline α} {f : α → Inline β} {s t : Inlining}

theorem run_bind_ok {a : α} (h : x.run.run s = some (.ok a, t)) :
    (x >>= f).run.run s = (f a).run.run t := by
  rw [ExceptT.run_bind, StateT.run_bind, h]
  rfl

theorem run_bind_error {e : ReferenceError} (h : x.run.run s = some (.error e, t)) :
    (x >>= f).run.run s = some (.error e, t) := by
  rw [ExceptT.run_bind, StateT.run_bind, h]
  rfl

theorem run_bind_none (h : x.run.run s = none) : (x >>= f).run.run s = none := by
  rw [ExceptT.run_bind, StateT.run_bind, h]
  rfl

theorem run_get : (get : Inline Inlining).run.run s = some (.ok s, s) := rfl

theorem run_modify (g : Inlining → Inlining) :
    (modify g : Inline PUnit).run.run s = some (.ok ⟨⟩, g s) := rfl

end Run

section Locate

variable {c : Corpus} {source : Source} {s : Inlining} {home : Home} {a : Address}

theorem Inlining.Sound.keep {uri : String} {document : Json} (h : s.Sound c source)
    (hf : s.fetched.lookup uri = none) (hs : source uri = .ok document) :
    Sound c source { s with
      asked := s.asked ++ [uri], fetched := s.fetched ++ [(uri, document)] } where
  documents other ho := by
    rw [h.documents other ho, Source.recall, Source.recall, List.lookup_append]
    by_cases hu : other = uri
    · subst hu
      rw [hf, hs]
      simp
    · have : (other == uri) = false := by simpa using hu
      simp [List.lookup_cons, this]
  targets := h.targets

/-- What asking for a document does: nothing if it was fetched before; else the address is noted,
and a document that comes is kept. -/
theorem fetch_cases (source : Source) (s : Inlining) (uri : String) :
    (∃ document, s.fetched.lookup uri = some document ∧
      (Resolver.fetch source uri).run.run s = some (.ok document, s)) ∨
    (∃ document, s.fetched.lookup uri = none ∧ source uri = .ok document ∧
      (Resolver.fetch source uri).run.run s = some (.ok document, { s with
        asked := s.asked ++ [uri], fetched := s.fetched ++ [(uri, document)] })) ∨
    ∃ cause, s.fetched.lookup uri = none ∧ source uri = .error cause ∧
      (Resolver.fetch source uri).run.run s =
        some (.error (.unretrievable uri cause), { s with asked := s.asked ++ [uri] }) := by
  rw [Resolver.fetch, run_bind_ok run_get]
  cases hf : s.fetched.lookup uri with
  | some document => exact .inl ⟨document, rfl, rfl⟩
  | none =>
    rw [run_bind_ok (run_modify _)]
    cases hd : source uri with
    | ok document => exact .inr (.inl ⟨document, rfl, rfl, rfl⟩)
    | error cause => exact .inr (.inr ⟨cause, rfl, rfl, rfl⟩)

theorem fetch_run (hs : s.Sound c source) {uri : String} (hu : uri.isEmpty = false) :
    ∃ t, t.Sound c source ∧ (Resolver.fetch source uri).run.run s = some (c.document uri, t) := by
  rw [hs.documents uri hu, Source.recall]
  obtain ⟨document, hf, hrun⟩ | ⟨document, hf, hd, hrun⟩ | ⟨cause, hf, hd, hrun⟩ :=
    fetch_cases source s uri
  · rw [hf, hrun]
    exact ⟨s, hs, rfl⟩
  · rw [hf, hd, hrun]
    exact ⟨_, hs.keep hf hd, rfl⟩
  · rw [hf, hd, hrun]
    exact ⟨{ s with asked := s.asked ++ [uri] }, ⟨hs.documents, hs.targets⟩, rfl⟩

theorem visit_cases (hs : s.Sound c source) (hh : home.Holds c a) (reference : String) :
    ∃ t, t.Sound c source ∧
      ((∃ there : Home, there.Holds c (a.refer reference) ∧
          (Resolver.visit source home (Resolver.splitReference reference).1).run.run s =
            some (.ok there, t)) ∨
        ∃ e, c.document (a.refer reference).uri = .error e ∧
          (Resolver.visit source home (Resolver.splitReference reference).1).run.run s =
            some (.error e, t)) := by
  rw [Resolver.visit]
  cases hl : (Resolver.splitReference reference).1.isEmpty with
  | true =>
    have huri : (a.refer reference).uri = a.uri := if_pos hl
    exact ⟨s, hs, .inl ⟨home, ⟨huri ▸ hh.uri, huri ▸ hh.document⟩, rfl⟩⟩
  | false =>
    have huri : (a.refer reference).uri = (Resolver.splitReference reference).1 :=
      if_neg (by simp [hl])
    obtain ⟨t, ht, hrun⟩ := fetch_run hs hl
    refine ⟨t, ht, ?_⟩
    cases hd : c.document (Resolver.splitReference reference).1 with
    | ok document =>
      rw [hd] at hrun
      exact .inl ⟨⟨_, document⟩, ⟨huri.symm, huri ▸ hd⟩, run_bind_ok hrun⟩
    | error e =>
      rw [hd] at hrun
      exact .inr ⟨e, huri ▸ hd, run_bind_error hrun⟩

theorem locate_cases (hs : s.Sound c source) (hh : home.Holds c a) (reference : String) :
    ∃ t, t.Sound c source ∧
      ((∃ there node, Home.Holds c there (a.refer reference) ∧
          c.target (a.refer reference) = .ok node ∧
          (Resolver.locate source home reference).run.run s = some (.ok (there, node), t)) ∨
        ∃ e, c.target (a.refer reference) = .error e ∧
          (Resolver.locate source home reference).run.run s = some (.error e, t)) := by
  rw [Resolver.locate, Corpus.target]
  obtain ⟨t, ht, ⟨there, hthere, hrun⟩ | ⟨e, he, hrun⟩⟩ := visit_cases hs hh reference
  · rw [hthere.document, run_bind_ok hrun]
    refine ⟨t, ht, ?_⟩
    cases hr : Pointer.resolve there.document (Resolver.splitReference reference).2 with
    | ok node => exact .inl ⟨there, node, hthere, hr, rfl⟩
    | error e => exact .inr ⟨e, hr, rfl⟩
  · rw [he]
    exact ⟨t, ht, .inr ⟨e, rfl, run_bind_error hrun⟩⟩

end Locate

/-! ## Simulation -/

abbrev Unfolding := ReaderT Nat Outcome

/-- A run ends soundly with a result that unfolding gives at some depth, or it is cut off where
unfolding is. -/
def Simulates (c : Corpus) (source : Source) (depth : Nat) {α : Type} (x : Inline α)
    (s : Inlining) (y : Unfolding α) : Prop :=
  (∃ result t, x.run.run s = some (result, t) ∧ t.Sound c source ∧
      ∃ enough, y enough = some result) ∨
    (x.run.run s = none ∧ y depth = none)

/-- A run, cut off at a depth, does what unfolding does. The depths need not be the same: a target
that is kept costs a run nothing, however deep it was. -/
structure Mirrors (c : Corpus) (source : Source) (depth : Nat) (α : Type) (x : Inline α)
    (y : Unfolding α) : Prop where
  grows : ∀ {less more r}, less ≤ more → y less = some r → y more = some r
  simulates : ∀ s, s.Sound c source → Simulates c source depth x s y

section Bind

variable {α β : Type} {y : Unfolding α} {g : α → Unfolding β} {n : Nat}

theorem bind_at_ok {a : α} (h : y n = some (.ok a)) : (y >>= g) n = g a n := by
  change y n >>= _ = _
  rw [h]
  rfl

theorem bind_at_error {e : ReferenceError} (h : y n = some (.error e)) :
    (y >>= g) n = some (.error e) := by
  change y n >>= _ = _
  rw [h]
  rfl

theorem bind_at_none (h : y n = none) : (y >>= g) n = none := by
  change y n >>= _ = _
  rw [h]
  rfl

end Bind

section Mirrors

variable {c : Corpus} {source : Source} {depth : Nat}

theorem Mirrors.unique {α : Type} {x : Inline α} {y : Unfolding α} {m n : Nat}
    {r r' : Except ReferenceError α} (h : Mirrors c source depth α x y) (hm : y m = some r)
    (hn : y n = some r') : r = r' := by
  have hm := h.grows (Nat.le_max_left m n) hm
  have hn := h.grows (Nat.le_max_right m n) hn
  exact Option.some.inj (hm.symm.trans hn)

theorem Mirrors.run {α : Type} {x : Inline α} {y : Unfolding α} {s : Inlining}
    {r : Except ReferenceError α} (h : Mirrors c source depth α x y) (hs : s.Sound c source)
    (hy : y depth = some r) : ∃ final, x.run.run s = some (r, final) := by
  rcases h.simulates s hs with ⟨r', t, hrun, -, n, hn⟩ | ⟨-, hnone⟩
  · cases h.unique hy hn
    exact ⟨t, hrun⟩
  · cases hy.symm.trans hnone

theorem Mirrors.result {α : Type} {x : Inline α} {y : Unfolding α} {s t : Inlining}
    {r : Except ReferenceError α} (h : Mirrors c source depth α x y) (hs : s.Sound c source)
    (hrun : x.run.run s = some (r, t)) : ∃ n, y n = some r := by
  rcases h.simulates s hs with ⟨r', t', hrun', -, hn⟩ | ⟨hnone, -⟩
  · cases hrun.symm.trans hrun'
    exact hn
  · cases hrun.symm.trans hnone

theorem sequential_mirrors : Sequential (Mirrors c source depth) where
  result a := ⟨fun _ h => h, fun s hs => .inl ⟨.ok a, s, rfl, hs, 0, rfl⟩⟩
  sequence {α β x y f g} hx hf := by
    constructor
    · intro less more r hle h
      rcases hy : y less with _ | e | a
      · rw [bind_at_none hy] at h
        cases h
      · rw [bind_at_error hy] at h
        rw [bind_at_error (hx.grows hle hy), h]
      · rw [bind_at_ok hy] at h
        rw [bind_at_ok (hx.grows hle hy)]
        exact (hf a).grows hle h
    · intro s hs
      rcases hx.simulates s hs with ⟨result, t, hrun, ht, n, hn⟩ | ⟨hnone, hy⟩
      · cases result with
        | error e => exact .inl ⟨.error e, t, run_bind_error hrun, ht, n, bind_at_error hn⟩
        | ok a =>
          rcases (hf a).simulates t ht with ⟨result, u, hrun', hu, m, hm⟩ | ⟨hnone, hg⟩
          · refine .inl ⟨result, u, (run_bind_ok hrun).trans hrun', hu, max n m, ?_⟩
            rw [bind_at_ok (hx.grows (Nat.le_max_left n m) hn)]
            exact (hf a).grows (Nat.le_max_right n m) hm
          · -- To this depth the first part has no result in unfolding, or the one of the run.
            refine .inr ⟨(run_bind_ok hrun).trans hnone, ?_⟩
            rcases hy : y depth with _ | r
            · exact bind_at_none hy
            · cases hx.unique hy hn
              rw [bind_at_ok hy, hg]
      · exact .inr ⟨run_bind_none hnone, bind_at_none hy⟩

theorem inlineNode_at (siblings : Bool) (y : String → Unfolding Json) (node : Json) (n : Nat) :
    inlineNode siblings y node n = inlineNode siblings (fun reference => y reference n) node := by
  have heval : Sequential fun α (x : Unfolding α) (z : Outcome α) => x n = z := by
    constructor
    · intro α a
      rfl
    · intro α β x z f g hx hf
      change x n >>= (fun a => f a n) = z >>= g
      rw [hx, funext hf]
  exact Resolver.inlineNode_related heval node fun _ _ => rfl

variable {progress : List String} {home : Home} {a : Address} {reference : String}

theorem Simulates.of_run {x x' : Inline Json} {y : Unfolding Json} {s : Inlining}
    (hx : x.run.run s = x'.run.run s) (h : Simulates c source depth x' s y) :
    Simulates c source depth x s y := by
  rw [Simulates, hx]
  exact h

theorem mirrors_node {f : String → Inline Json} {node : Json}
    (h : ∀ reference, Resolver.Meets c.siblings node reference →
      Mirrors c source depth _ (f reference) fun n => c.trace n progress a reference) :
    Mirrors c source depth _ (inlineNode c.siblings f node)
      fun n => inlineNode c.siblings (c.trace n progress a) node := by
  have hnode := Resolver.inlineNode_related sequential_mirrors node h
  rw [funext (inlineNode_at c.siblings (fun reference n => c.trace n progress a reference) node)]
    at hnode
  exact hnode

theorem simulates_located {inner : Home × Json → Inline Json} {s : Inlining}
    (hs : s.Sound c source) (hh : home.Holds c a) (hk : (a.refer reference).key ∉ progress)
    (hinner : ∀ there node, Home.Holds c there (a.refer reference) →
      c.target (a.refer reference) = .ok node →
      Mirrors c source depth _ (inner (there, node)) fun n => inlineNode c.siblings
        (c.trace n ((a.refer reference).key :: progress) (a.refer reference)) node) :
    Simulates c source (depth + 1) (Resolver.locate source home reference >>= inner) s
      fun n => c.trace n progress a reference := by
  obtain ⟨t, ht, ⟨there, node, hthere, htarget, hrun⟩ | ⟨e, he, hrun⟩⟩ :=
    locate_cases hs hh reference
  · rcases (hinner there node hthere htarget).simulates t ht with
      ⟨result, u, hinner, hu, n, hn⟩ | ⟨hnone, hn⟩
    · refine .inl ⟨result, u, (run_bind_ok hrun).trans hinner, hu, n + 1, ?_⟩
      exact (trace_succ_ok hk htarget).trans hn
    · exact .inr ⟨(run_bind_ok hrun).trans hnone, (trace_succ_ok hk htarget).trans hn⟩
  · exact .inl ⟨.error e, t, run_bind_error hrun, ht, 1, trace_succ_error hk he⟩

theorem mirrors_keep {x : Inline Json} {y : Unfolding Json} (h : Mirrors c source depth _ x y)
    (hy : ∀ n json, y n = some (.ok json) → ∃ m, c.expand m a = some json) :
    Mirrors c source depth _ (do
      let json ← x
      modify fun s => { s with inlined := (a.key, json) :: s.inlined }
      return json) y := by
  refine ⟨h.grows, fun s hs => ?_⟩
  rcases h.simulates s hs with ⟨result, t, hrun, ht, n, hn⟩ | ⟨hnone, hn⟩
  · cases result with
    | error e => exact .inl ⟨.error e, t, run_bind_error hrun, ht, n, hn⟩
    | ok json =>
      refine .inl ⟨.ok json, _, run_bind_ok hrun, ⟨ht.documents, fun place kept hl => ?_⟩, n, hn⟩
      rw [List.lookup_cons] at hl
      split at hl
      · next hp =>
        cases hl
        obtain ⟨m, hm⟩ := hy n json hn
        exact ⟨a, m, (beq_iff_eq.mp hp).symm, hm⟩
      · exact ht.targets place kept hl
  · exact .inr ⟨run_bind_none hnone, hn⟩

end Mirrors

namespace Resolver

/-- Following a reference without a memory of targets: a cycle is noticed by the references in
progress only. -/
def followAfresh (source : Source) (siblings : Bool) :
    Nat → List String → Home → String → Inline Json
  | 0, _, _, _ => fun _ => none
  | depth + 1, progress, home, reference => do
    let place := key home reference
    if progress.contains place then throw (.cyclic reference)
    else
      let (home, target) ← locate source home reference
      inlineNode siblings (followAfresh source siblings depth (place :: progress) home) target

def inlineAfresh (source : Source) (siblings : Bool) (fetched : List (String × Json))
    (schema : Json) (depth : Nat) : Option (Except ReferenceError Json × Inlining) :=
  (inlineNode siblings (followAfresh source siblings depth [] ⟨"", schema⟩) schema).run.run
    ⟨fetched, [], []⟩

end Resolver

section Follow

variable {source : Source} {siblings : Bool} {depth : Nat} {progress : List String} {home : Home}
variable {reference : String} {s : Inlining}

theorem follow_cyclic (hk : Resolver.key home reference ∈ progress) :
    (Resolver.follow source siblings (depth + 1) progress home reference).run.run s =
      some (.error (.cyclic reference), s) := by
  rw [Resolver.follow, if_pos (by simpa using hk)]
  rfl

theorem follow_inlined (hk : Resolver.key home reference ∉ progress) {json : Json}
    (hl : s.inlined.lookup (Resolver.key home reference) = some json) :
    (Resolver.follow source siblings (depth + 1) progress home reference).run.run s =
      some (.ok json, s) := by
  rw [Resolver.follow, if_neg (by simpa using hk), run_bind_ok run_get, hl]
  rfl

theorem follow_located (hk : Resolver.key home reference ∉ progress)
    (hl : s.inlined.lookup (Resolver.key home reference) = none) :
    (Resolver.follow source siblings (depth + 1) progress home reference).run.run s =
      (Resolver.locate source home reference >>= fun found => do
        let json ← inlineNode siblings (Resolver.follow source siblings depth
          (Resolver.key home reference :: progress) found.1) found.2
        modify fun s => { s with inlined := (Resolver.key home reference, json) :: s.inlined }
        return json).run.run s := by
  rw [Resolver.follow, if_neg (by simpa using hk), run_bind_ok run_get, hl]

variable {c : Corpus} {a : Address}

theorem follow_mirrors (hh : home.Holds c a) (hp : Chained c progress a)
    (hab : c.Leads a (a.refer reference)) :
    Mirrors c source depth _ (Resolver.follow source c.siblings depth progress home reference)
      fun n => c.trace n progress a reference := by
  -- By induction on the depth. A target that was kept is unfolded to its end, and unfolding it
  -- again with other references in progress gives the same.
  induction depth generalizing progress home a reference with
  | zero => exact ⟨fun hle h => trace_mono h hle, fun s _ => .inr ⟨rfl, rfl⟩⟩
  | succ depth ih =>
    refine ⟨fun hle h => trace_mono h hle, fun s hs => ?_⟩
    have hkey := key_refer hh reference
    by_cases hk : (a.refer reference).key ∈ progress
    · exact .inl ⟨_, s, follow_cyclic (hkey ▸ hk), hs, 1, trace_succ_cyclic hk⟩
    · cases hl : s.inlined.lookup (Resolver.key home reference) with
      | some json =>
        -- The hit skips the check for cycles below the target; by `trace_of_expand` there are none.
        obtain ⟨b, n, hb, hn⟩ := hs.targets _ _ hl
        cases Address.key_injective (hb.trans hkey)
        exact .inl ⟨.ok json, s, follow_inlined (hkey ▸ hk) hl, hs, n,
          trace_of_expand hn hp hab (Nat.le_refl n)⟩
      | none =>
        refine .of_run (follow_located (hkey ▸ hk) hl) ?_
        rw [hkey]
        refine simulates_located hs hh hk fun there node hthere htarget => ?_
        refine mirrors_keep (mirrors_node fun reference' hm => ?_) fun n json hn => ⟨n + 1, ?_⟩
        · exact ih hthere (hp.step hab) ⟨node, reference', htarget, hm, rfl⟩
        · exact expand_of_trace ((trace_succ_ok hk htarget).trans hn)

theorem followAfresh_mirrors (hh : home.Holds c a) (hp : Chained c progress a)
    (hab : c.Leads a (a.refer reference)) :
    Mirrors c source depth _
      (Resolver.followAfresh source c.siblings depth progress home reference)
      fun n => c.trace n progress a reference := by
  induction depth generalizing progress home a reference with
  | zero => exact ⟨fun hle h => trace_mono h hle, fun s _ => .inr ⟨rfl, rfl⟩⟩
  | succ depth ih =>
    refine ⟨fun hle h => trace_mono h hle, fun s hs => ?_⟩
    rw [Resolver.followAfresh, key_refer hh reference]
    by_cases hk : (a.refer reference).key ∈ progress
    · rw [if_pos (by simpa using hk)]
      exact .inl ⟨_, s, rfl, hs, 1, trace_succ_cyclic hk⟩
    · rw [if_neg (by simpa using hk)]
      refine simulates_located hs hh hk fun there node hthere htarget => ?_
      exact mirrors_node fun reference' hm =>
        ih hthere (hp.step hab) ⟨node, reference', htarget, hm, rfl⟩

end Follow

/-! ## Runs on a schema -/

def Ends (run : Nat → Option (Except ReferenceError Json × Inlining))
    (result : Except ReferenceError Json) : Prop :=
  ∃ enough, ∀ depth, enough ≤ depth → ∃ final, run depth = some (result, final)

section Ends

variable {c : Corpus} {source : Source} {schema : Json}

theorem run_mirrors {f : String → Inline Json} {depth : Nat} (hroot : c.target .root = .ok schema)
    (h : ∀ reference, c.Leads .root (Address.root.refer reference) →
      Mirrors c source depth _ (f reference) fun n => c.trace n [] .root reference) :
    Mirrors c source depth _ (inlineNode c.siblings f schema) c.outcome := by
  have houtcome : c.outcome = fun n => inlineNode c.siblings (c.trace n [] .root) schema :=
    funext fun n => outcome_eq hroot
  rw [houtcome]
  exact mirrors_node fun reference hm => h reference ⟨schema, reference, hroot, hm, rfl⟩

theorem ends_iff_outcome {x : Nat → Inline Json} {s : Inlining}
    (h : ∀ depth, Mirrors c source depth _ (x depth) c.outcome) (hs : s.Sound c source)
    (result : Except ReferenceError Json) :
    Ends (fun depth => (x depth).run.run s) result ↔ ∃ depth, c.outcome depth = some result := by
  constructor
  · rintro ⟨enough, hends⟩
    obtain ⟨final, hfinal⟩ := hends enough (Nat.le_refl _)
    exact (h enough).result hs hfinal
  · rintro ⟨enough, henough⟩
    exact ⟨enough, fun depth hle => (h depth).run hs ((h depth).grows hle henough)⟩

end Ends

section Start

variable (source : Source) (siblings : Bool) (fetched : List (String × Json)) (schema : Json)

theorem sound_start :
    Inlining.Sound (.of source siblings fetched schema) source ⟨fetched, [], []⟩ where
  documents uri hu := by
    change (if uri.isEmpty = true then _ else _) = _
    rw [hu]
    rfl
  targets place json h := by cases h

theorem holds_start : Home.Holds (.of source siblings fetched schema) ⟨"", schema⟩ .root :=
  ⟨rfl, rfl⟩

theorem inlineWithin_mirrors (depth : Nat) :
    Mirrors (.of source siblings fetched schema) source depth _
      (inlineNode siblings (Resolver.follow source siblings depth [] ⟨"", schema⟩) schema)
      (Corpus.of source siblings fetched schema).outcome :=
  run_mirrors (target_root source siblings fetched schema) fun _ =>
    follow_mirrors (holds_start source siblings fetched schema) .root

theorem inlineAfresh_mirrors (depth : Nat) :
    Mirrors (.of source siblings fetched schema) source depth _
      (inlineNode siblings (Resolver.followAfresh source siblings depth [] ⟨"", schema⟩) schema)
      (Corpus.of source siblings fetched schema).outcome :=
  run_mirrors (target_root source siblings fetched schema) fun _ =>
    followAfresh_mirrors (holds_start source siblings fetched schema) .root

variable (result : Except ReferenceError Json)

theorem ends_inlineWithin : Ends (Resolver.inlineWithin source siblings fetched schema) result ↔
    ∃ depth, (Corpus.of source siblings fetched schema).outcome depth = some result :=
  ends_iff_outcome (inlineWithin_mirrors source siblings fetched schema)
    (sound_start source siblings fetched schema) result

theorem ends_inlineAfresh : Ends (Resolver.inlineAfresh source siblings fetched schema) result ↔
    ∃ depth, (Corpus.of source siblings fetched schema).outcome depth = some result :=
  ends_iff_outcome (inlineAfresh_mirrors source siblings fetched schema)
    (sound_start source siblings fetched schema) result

end Start

/-! ## Documents that can be listed -/

theorem Retriever.mem_all {retriever : Retriever} {uri : String} {document : Json}
    (h : retriever.answer uri = .ok document) : (uri, document) ∈ retriever.all := by
  cases retriever with
  | absent => cases h
  | documents entries =>
    rw [answer] at h
    cases hl : entries.lookup uri with
    | some found =>
      rw [hl] at h
      cases h
      exact Json.mem_of_lookup hl
    | none =>
      rw [hl] at h
      cases h

namespace Resolver

variable (r : Resolver) (schema : Json)

def corpus : Corpus := .of r.retriever.answer r.siblings r.fetched schema

def documents : List (String × Json) := ("", schema) :: (r.fetched ++ r.retriever.all)

def places : List String :=
  (r.documents schema).flatMap fun entry => (mentions entry.2).map (key ⟨entry.1, entry.2⟩)

theorem length_places : (r.places schema).length + 1 = r.depthFor schema := by
  simp [places, documents, depthFor, List.length_flatMap, Function.comp_def]

variable {r schema}

theorem mem_documents {uri : String} {document : Json}
    (h : (r.corpus schema).document uri = .ok document) :
    (uri, document) ∈ r.documents schema := by
  change (if uri.isEmpty = true then _ else _) = _ at h
  split at h
  · next hu =>
    cases h
    rw [String.isEmpty_iff.mp hu]
    exact .head _
  · refine .tail _ (List.mem_append.mpr ?_)
    rcases Source.recall_ok h with hf | ha
    · exact .inl hf
    · exact .inr (Retriever.mem_all ha)

theorem mem_places {a b : Address} (h : (r.corpus schema).Leads a b) :
    b.key ∈ r.places schema := by
  obtain ⟨node, reference, htarget, hmeets, rfl⟩ := h
  unfold Corpus.target at htarget
  split at htarget
  · next document hd =>
    have hhome : Home.Holds (r.corpus schema) ⟨a.uri, document⟩ a := ⟨rfl, hd⟩
    rw [← key_refer hhome reference]
    refine List.mem_flatMap.mpr ⟨(a.uri, document), mem_documents hd, ?_⟩
    exact List.mem_map_of_mem (mentions_resolve htarget (mem_mentions hmeets))
  · cases htarget

variable (r schema)

theorem outcome_ends {depth : Nat} (h : r.depthFor schema ≤ depth) :
    (r.corpus schema).outcome depth ≠ none := by
  have hroot : (r.corpus schema).target .root = .ok schema := target_root _ _ _ _
  rw [outcome_eq hroot]
  refine inlineNode_related (g := fun _ => (Json.null : Id Json)) sequential_isSome schema
    fun reference hm => ?_
  have hlength := r.length_places schema
  refine trace_ne_none (fun a b => mem_places) ⟨schema, reference, hroot, hm, rfl⟩ List.nodup_nil
    (List.nil_subset _) ?_
  rw [List.length_nil]
  omega

theorem target_ne_cyclic (a : Address) (reference : String) :
    (r.corpus schema).target a ≠ .error (.cyclic reference) := by
  have walk_ne (fragment : String) (segments : List (List Char)) (json : Json) :
      Pointer.walk fragment json segments ≠ .error (.cyclic reference) := by
    fun_induction Pointer.walk fragment json segments <;> simp_all
  have resolve_ne (document : Json) (fragment : String) :
      Pointer.resolve document fragment ≠ .error (.cyclic reference) := by
    unfold Pointer.resolve
    split
    · simp
    · exact walk_ne _ _ _
    · simp
  have recall_ne : r.retriever.answer.recall r.fetched a.uri ≠ .error (.cyclic reference) := by
    unfold Source.recall
    split
    · simp
    · split <;> simp
  unfold Corpus.target
  split
  · exact resolve_ne _ _
  · next hd =>
    change (if a.uri.isEmpty = true then _ else _) = _ at hd
    split at hd
    · cases hd
    · exact fun h => recall_ne (hd.trans h)

theorem inlineWithin_eq {depth : Nat} {result : Except ReferenceError Json}
    (h : (r.corpus schema).outcome depth = some result) : ∃ final,
    inlineWithin r.retriever.answer r.siblings r.fetched schema depth = some (result, final) :=
  (inlineWithin_mirrors r.retriever.answer r.siblings r.fetched schema depth).run
    (sound_start _ _ _ _) h

/-- The depth that inlining allows is enough for it to end with what unfolding gives. -/
theorem outcome_inline {depth : Nat} (h : r.depthFor schema ≤ depth) :
    (r.corpus schema).outcome depth = some (r.inline schema).1 := by
  obtain ⟨result, hresult⟩ := Option.ne_none_iff_exists'.mp
    (r.outcome_ends schema (Nat.le_refl _))
  obtain ⟨final, hfinal⟩ := r.inlineWithin_eq schema hresult
  have hinline : (r.inline schema).1 = result := by rw [inline, hfinal]
  rw [hinline]
  exact (inlineWithin_mirrors _ _ _ schema depth).grows h hresult

end Resolver

/-- Inlining ends at every depth from a known one on. It succeeds if and only if every reference met
by unfolding the schema has a target and unfolding is finite. It reports a cycle only if some
address within reach leads back to itself, and any other error only as that of a target. -/
theorem inline_ok_iff_unfolds (r : Resolver) (schema : Json) :
    (∀ depth, r.depthFor schema ≤ depth → ∃ final,
      Resolver.inlineWithin r.retriever.answer r.siblings r.fetched schema depth =
        some ((r.inline schema).1, final)) ∧
    ((∃ json, (r.inline schema).1 = .ok json) ↔ (r.corpus schema).Unfolds) ∧
    (∀ reference, (r.inline schema).1 = .error (.cyclic reference) →
      ∃ a, (r.corpus schema).Reaches a ∧ TransGen (r.corpus schema).Leads a a) ∧
    ∀ e, (r.inline schema).1 = .error e → (∀ reference, e ≠ .cyclic reference) →
      ∃ a, (r.corpus schema).Reaches a ∧ (r.corpus schema).target a = .error e := by
  have hroot : (r.corpus schema).target .root = .ok schema := target_root _ _ _ _
  have houtcome := r.outcome_inline schema (Nat.le_refl _)
  have hends := r.outcome_ends schema (Nat.le_refl _)
  refine ⟨?_, ⟨?_, ?_⟩, ?_, ?_⟩
  · intro depth hle
    exact r.inlineWithin_eq schema (r.outcome_inline schema hle)
  · rintro ⟨json, hjson⟩
    rw [hjson] at houtcome
    exact unfolds_of_outcome hroot houtcome
  · intro hunfolds
    obtain ⟨json, hjson⟩ := outcome_of_unfolds hroot hunfolds hends
    exact ⟨json, Option.some.inj (houtcome.symm.trans hjson)⟩
  · intro reference hcyclic
    rw [hcyclic] at houtcome
    obtain ⟨a, ha, htarget | ⟨_, _, hcycle⟩⟩ := outcome_error hroot houtcome
    · exact absurd htarget (r.target_ne_cyclic schema a reference)
    · exact ⟨a, ha, hcycle⟩
  · intro e he hother
    rw [he] at houtcome
    obtain ⟨a, ha, htarget | ⟨reference, hcyclic, _⟩⟩ := outcome_error hroot houtcome
    · exact ⟨a, ha, htarget⟩
    · exact absurd hcyclic (hother reference)

/-- A schema refers to another document, in which a reference leads back to its own place. -/
theorem cycle_in_other_document :
    let other : Json := .object [("a", .object [("not", .object [("$ref", .string "#/a")])])]
    let schema : Json := .object [("items", .object [("$ref", .string "other#/a")])]
    let r : Resolver := { retriever := .ofList [("other", other)] }
    (r.inline schema).1 = .error (.cyclic "#/a") ∧ r.depthFor schema = 3 ∧
      (∃ final, Resolver.inlineWithin r.retriever.answer false [] schema 3 =
        some (.error (.cyclic "#/a"), final)) ∧
      ¬ (r.corpus schema).Unfolds ∧
      ∃ a, (r.corpus schema).Reaches a ∧ TransGen (r.corpus schema).Leads a a := by
  intro other schema r
  have hcyclic : (r.inline schema).1 = .error (.cyclic "#/a") := rfl
  obtain ⟨ends, ok_iff, cyclic, -⟩ := inline_ok_iff_unfolds r schema
  refine ⟨hcyclic, rfl, hcyclic ▸ ends 3 (by decide), ?_, cyclic _ hcyclic⟩
  intro hunfolds
  obtain ⟨json, hjson⟩ := ok_iff.mpr hunfolds
  cases hcyclic.symm.trans hjson

/-- Targets that are kept change nothing: a run ends with a result if and only if the run that
keeps none ends with it, and inlining gives this result. -/
theorem inline_memory_transparent (source : Source) (siblings : Bool)
    (fetched : List (String × Json)) (schema : Json) :
    (∀ result, Ends (Resolver.inlineWithin source siblings fetched schema) result ↔
      Ends (Resolver.inlineAfresh source siblings fetched schema) result) ∧
    ∀ r : Resolver, Ends (Resolver.inlineAfresh r.retriever.answer r.siblings r.fetched schema)
      (r.inline schema).1 := by
  constructor
  · intro result
    rw [ends_inlineWithin, ends_inlineAfresh]
  · intro r
    rw [ends_inlineAfresh]
    exact ⟨_, r.outcome_inline schema (Nat.le_refl _)⟩

end SchemaLogic
