import Mathlib.Data.List.Perm.Subperm
import Mathlib.Data.List.TakeWhile
import Mathlib.Logic.Relation
import Mathlib.Order.WellFounded
import SchemaLogic.Proofs.Traversal

/-! # Unfolding references

References lead from one address to others. Unfolding a schema follows them from its root, with a
record of the references in progress by which a cycle is noticed, and with nothing else in mind:
neither targets that were inlined before nor documents that were fetched before. -/
namespace SchemaLogic

open Relation (TransGen ReflTransGen)
open Resolver (Meets Sequential inlineNode)

/-- A document and a fragment in it. The schema at hand has the empty URI. -/
structure Address where
  uri : String
  fragment : String
  plain : '#' ∉ uri.toList

namespace Address

def root : Address := ⟨"", "", by simp⟩

def key (a : Address) : String := a.uri ++ "#" ++ a.fragment

theorem location_plain (reference : String) :
    '#' ∉ (Resolver.splitReference reference).1.toList := by
  intro h
  rw [Resolver.splitReference, String.toList_ofList] at h
  simpa using List.mem_takeWhile_imp h

def refer (a : Address) (reference : String) : Address where
  uri := if (Resolver.splitReference reference).1.isEmpty then a.uri
    else (Resolver.splitReference reference).1
  fragment := (Resolver.splitReference reference).2
  plain := by
    split
    · exact a.plain
    · exact location_plain reference

theorem takeWhile_key (a : Address) : a.key.toList.takeWhile (· != '#') = a.uri.toList := by
  have before : ∀ c ∈ a.uri.toList, (c != '#') = true := by
    intro c hc
    by_cases h : c = '#'
    · exact absurd (h ▸ hc) a.plain
    · simpa using h
  rw [key, String.toList_append, String.toList_append, List.append_assoc,
    List.takeWhile_append_of_pos before]
  simp

/-- The text of an address can be read back, since its URI has no `#`. -/
theorem key_injective {a b : Address} (h : a.key = b.key) : a = b := by
  have huri : a.uri = b.uri := by
    apply String.ext
    rw [← takeWhile_key a, ← takeWhile_key b, h]
  have hfragment : a.fragment = b.fragment := by
    simp only [key, huri] at h
    have := congrArg String.toList h
    simp only [String.toList_append] at this
    exact String.ext (List.append_cancel_left this)
  cases a
  cases b
  cases huri
  cases hfragment
  rfl

end Address

/-- The documents in reach, by URI, and whether keywords beside a reference count. -/
structure Corpus where
  siblings : Bool
  document : String → Except ReferenceError Json

abbrev Outcome := ExceptT ReferenceError Option

namespace Corpus

variable (c : Corpus)

def target (a : Address) : Except ReferenceError Json :=
  match c.document a.uri with
  | .ok document => Pointer.resolve document a.fragment
  | .error e => .error e

def Leads (a b : Address) : Prop :=
  ∃ node reference, c.target a = .ok node ∧ Meets c.siblings node reference ∧
    a.refer reference = b

/-- Unfolding a reference that is met below an address, while others are in progress. -/
def trace : Nat → List String → Address → String → Outcome Json
  | 0, _, _, _ => none
  | depth + 1, progress, a, reference =>
    if progress.contains (a.refer reference).key then throw (.cyclic reference)
    else
      match c.target (a.refer reference) with
      | .ok node =>
        inlineNode c.siblings
          (trace depth ((a.refer reference).key :: progress) (a.refer reference)) node
      | .error e => throw e

/-- The target of an address with all references replaced, if all have targets and they nest less
deep than a number. There is no record of references in progress here. -/
def expand : Nat → Address → Option Json
  | 0, _ => none
  | depth + 1, a =>
    match c.target a with
    | .ok node => inlineNode c.siblings (fun reference => expand depth (a.refer reference)) node
    | .error _ => none

end Corpus

/-! ## Finite unfolding -/

section Expand

variable {c : Corpus} {a b : Address} {depth : Nat} {json : Json}

theorem sequential_some : Sequential fun α (x y : Option α) => ∀ v, x = some v → y = some v where
  result a v h := h
  sequence {α β x y f g} hx hf v h := by
    obtain ⟨a, ha, hv⟩ := Option.bind_eq_some_iff.mp h
    exact Option.bind_eq_some_iff.mpr ⟨a, hx a ha, hf a v hv⟩

theorem expand_succ (h : c.expand depth a = some json) : c.expand (depth + 1) a = some json := by
  induction depth generalizing a json with
  | zero => cases h
  | succ depth ih =>
    rw [Corpus.expand] at h ⊢
    split at h
    · next node hnode =>
      exact Resolver.inlineNode_related sequential_some node (fun reference _ v hv => ih hv) json h
    · cases h

theorem expand_mono {more : Nat} (h : c.expand depth a = some json) (hle : depth ≤ more) :
    c.expand more a = some json := by
  induction hle with
  | refl => exact h
  | step _ ih => exact expand_succ ih

theorem target_of_expand (h : c.expand depth a = some json) : ∃ node, c.target a = .ok node := by
  cases depth with
  | zero => cases h
  | succ depth =>
    rw [Corpus.expand] at h
    split at h
    · next node hnode => exact ⟨node, hnode⟩
    · cases h

theorem expand_leads (h : c.expand depth a = some json) (hab : c.Leads a b) :
    ∃ less v, less < depth ∧ c.expand less b = some v := by
  cases depth with
  | zero => cases h
  | succ depth =>
    obtain ⟨node, reference, hnode, hmeets, rfl⟩ := hab
    rw [Corpus.expand, hnode] at h
    obtain ⟨v, hv⟩ := Resolver.inlineNode_some h hmeets
    exact ⟨depth, v, Nat.lt_succ_self _, hv⟩

theorem expand_reaches (h : c.expand depth a = some json) (hab : ReflTransGen c.Leads a b) :
    ∃ less v, c.expand less b = some v := by
  induction hab with
  | refl => exact ⟨depth, json, h⟩
  | tail _ hbc ih =>
    obtain ⟨less, v, hv⟩ := ih
    obtain ⟨less, w, -, hw⟩ := expand_leads hv hbc
    exact ⟨less, w, hw⟩

theorem acc_of_expand (h : c.expand depth a = some json) : Acc (fun x y => c.Leads y x) a := by
  induction depth using Nat.strongRecOn generalizing a json with
  | ind depth ih =>
    constructor
    intro b hab
    obtain ⟨less, v, hlt, hv⟩ := expand_leads h hab
    exact ih less hlt hv

theorem no_cycle_of_acc (h : Acc (fun x y => c.Leads y x) a) : ¬ TransGen c.Leads a a := by
  induction h with
  | intro a _ ih =>
    intro hcycle
    obtain ⟨b, hab, hba⟩ := TransGen.head'_iff.mp hcycle
    exact ih b hab (TransGen.tail' hba hab)

theorem acc_of_reaches (h : Acc (fun x y => c.Leads y x) a) (hab : ReflTransGen c.Leads a b) :
    Acc (fun x y => c.Leads y x) b := by
  induction hab with
  | refl => exact h
  | tail _ hbc ih => exact ih.inv hbc

end Expand

/-! ## Unfolding with a record of references in progress -/

section Trace

variable {c : Corpus} {a : Address} {reference : String} {progress : List String} {depth : Nat}

def Chained (c : Corpus) (progress : List String) (a : Address) : Prop :=
  ∀ key ∈ progress, ∃ p : Address, p.key = key ∧ ReflTransGen c.Leads p a

theorem Chained.root : Chained c [] Address.root := by
  intro key hk
  cases hk

theorem Chained.step {b : Address} (h : Chained c progress a) (hab : c.Leads a b) :
    Chained c (b.key :: progress) b := by
  intro key hk
  rcases List.mem_cons.mp hk with rfl | hk
  · exact ⟨b, rfl, .refl⟩
  · obtain ⟨p, hp, hpa⟩ := h key hk
    exact ⟨p, hp, hpa.tail hab⟩

theorem trace_succ_cyclic (h : (a.refer reference).key ∈ progress) :
    c.trace (depth + 1) progress a reference = some (.error (.cyclic reference)) := by
  rw [Corpus.trace, if_pos (by simpa using h)]
  rfl

theorem trace_succ_error {e : ReferenceError} (h : (a.refer reference).key ∉ progress)
    (ht : c.target (a.refer reference) = .error e) :
    c.trace (depth + 1) progress a reference = some (.error e) := by
  rw [Corpus.trace, if_neg (by simpa using h), ht]
  rfl

theorem trace_succ_ok {node : Json} (h : (a.refer reference).key ∉ progress)
    (ht : c.target (a.refer reference) = .ok node) :
    c.trace (depth + 1) progress a reference = inlineNode c.siblings
      (c.trace depth ((a.refer reference).key :: progress) (a.refer reference)) node := by
  rw [Corpus.trace, if_neg (by simpa using h), ht]

theorem trace_cases (c : Corpus) (progress : List String) (a : Address) (reference : String) :
    ((a.refer reference).key ∈ progress ∧
      ∀ depth, c.trace (depth + 1) progress a reference = some (.error (.cyclic reference))) ∨
    ((a.refer reference).key ∉ progress ∧ ∃ e, c.target (a.refer reference) = .error e ∧
      ∀ depth, c.trace (depth + 1) progress a reference = some (.error e)) ∨
    ((a.refer reference).key ∉ progress ∧ ∃ node, c.target (a.refer reference) = .ok node ∧
      ∀ depth, c.trace (depth + 1) progress a reference = inlineNode c.siblings
        (c.trace depth ((a.refer reference).key :: progress) (a.refer reference)) node) := by
  by_cases hk : (a.refer reference).key ∈ progress
  · exact .inl ⟨hk, fun _ => trace_succ_cyclic hk⟩
  · cases ht : c.target (a.refer reference) with
    | error e => exact .inr (.inl ⟨hk, e, rfl, fun _ => trace_succ_error hk ht⟩)
    | ok node => exact .inr (.inr ⟨hk, node, rfl, fun _ => trace_succ_ok hk ht⟩)

def Fails (c : Corpus) (b : Address) (e : ReferenceError) : Prop :=
  c.target b = .error e ∨ ∃ reference, e = .cyclic reference ∧ TransGen c.Leads b b

theorem sequential_error (P : ReferenceError → Prop) :
    Sequential fun α (x : Outcome α) (_ : Id α) => ∀ e, x = some (.error e) → P e where
  result a e h := by cases h
  sequence {α β x y f g} hx hf e h := by
    rcases x with _ | e' | a
    · cases h
    · cases h
      exact hx e rfl
    · exact hf a e h

/-- Every error has its cause at an address within reach. -/
theorem trace_error {e : ReferenceError} (h : c.trace depth progress a reference = some (.error e))
    (hp : Chained c progress a) (hab : c.Leads a (a.refer reference)) :
    ∃ b, ReflTransGen c.Leads (a.refer reference) b ∧ Fails c b e := by
  induction depth generalizing progress a reference e with
  | zero => cases h
  | succ depth ih =>
    obtain ⟨hk, hstep⟩ | ⟨-, e', ht, hstep⟩ | ⟨-, node, ht, hstep⟩ :=
      trace_cases c progress a reference
    · rw [hstep] at h
      cases h
      -- The key is that of an address which leads here, so it is met again.
      obtain ⟨p, hp, hpa⟩ := hp _ hk
      cases Address.key_injective hp
      exact ⟨_, .refl, .inr ⟨reference, rfl, TransGen.tail' hpa hab⟩⟩
    · rw [hstep] at h
      cases h
      exact ⟨_, .refl, .inl ht⟩
    · rw [hstep] at h
      refine Resolver.inlineNode_related (g := fun _ => (Json.null : Id Json))
        (sequential_error fun e => ∃ b, ReflTransGen c.Leads (a.refer reference) b ∧ Fails c b e)
        node (fun reference' hm e he => ?_) e h
      have hbc : c.Leads (a.refer reference) ((a.refer reference).refer reference') :=
        ⟨node, reference', ht, hm, rfl⟩
      obtain ⟨b, hb, hf⟩ := ih he (hp.step hab) hbc
      exact ⟨b, .head hbc hb, hf⟩

theorem sequential_ok :
    Sequential fun α (x : Outcome α) (y : Option α) => ∀ v, x = some (.ok v) → y = some v where
  result a v h := by
    cases h
    rfl
  sequence {α β x y f g} hx hf v h := by
    rcases x with _ | e | a
    · cases h
    · cases h
    · exact Option.bind_eq_some_iff.mpr ⟨a, hx a rfl, hf a v h⟩

/-- A value that unfolding gives does not depend on the references in progress. -/
theorem expand_of_trace {json : Json}
    (h : c.trace depth progress a reference = some (.ok json)) :
    c.expand depth (a.refer reference) = some json := by
  induction depth generalizing progress a reference json with
  | zero => cases h
  | succ depth ih =>
    obtain ⟨-, hstep⟩ | ⟨-, e, -, hstep⟩ | ⟨-, node, ht, hstep⟩ :=
      trace_cases c progress a reference
    · rw [hstep] at h
      cases h
    · rw [hstep] at h
      cases h
    · rw [hstep] at h
      rw [Corpus.expand, ht]
      exact Resolver.inlineNode_related sequential_ok node (fun _ _ v hv => ih hv) json h

theorem sequential_settles : Sequential fun α (x : Option α) (y : Outcome α) =>
    ∀ v, x = some v → y = some (.ok v) ∨ ∃ e, y = some (.error e) where
  result a v h := by
    cases h
    exact .inl rfl
  sequence {α β x y f g} hx hf v h := by
    obtain ⟨a, ha, hv⟩ := Option.bind_eq_some_iff.mp h
    rcases hx a ha with rfl | ⟨e, rfl⟩
    · exact hf a v hv
    · exact .inr ⟨e, rfl⟩

theorem trace_settles {json : Json} (h : c.expand depth (a.refer reference) = some json)
    (progress : List String) : c.trace depth progress a reference = some (.ok json) ∨
      ∃ e, c.trace depth progress a reference = some (.error e) := by
  induction depth generalizing progress a reference json with
  | zero => cases h
  | succ depth ih =>
    obtain ⟨-, hstep⟩ | ⟨-, e, -, hstep⟩ | ⟨-, node, ht, hstep⟩ :=
      trace_cases c progress a reference
    · exact .inr ⟨_, hstep depth⟩
    · exact .inr ⟨e, hstep depth⟩
    · rw [Corpus.expand, ht] at h
      rw [hstep]
      exact Resolver.inlineNode_related sequential_settles node (fun _ _ v hv => ih hv _) json h

/-- What can be unfolded is unfolded, whatever is in progress: none of that can be met again. -/
theorem trace_of_expand {json : Json} (h : c.expand depth (a.refer reference) = some json)
    (hp : Chained c progress a) (hab : c.Leads a (a.refer reference)) {more : Nat}
    (hle : depth ≤ more) : c.trace more progress a reference = some (.ok json) := by
  rcases trace_settles (expand_mono h hle) progress with hok | ⟨e, he⟩
  · exact hok
  · exfalso
    obtain ⟨b, hb, hfails⟩ := trace_error he hp hab
    obtain ⟨less, v, hv⟩ := expand_reaches h hb
    rcases hfails with ht | ⟨_, _, hcycle⟩
    · obtain ⟨node, hnode⟩ := target_of_expand hv
      rw [hnode] at ht
      cases ht
    · exact no_cycle_of_acc (acc_of_expand hv) hcycle

theorem sequential_result :
    Sequential fun α (x y : Outcome α) => ∀ r, x = some r → y = some r where
  result a r h := h
  sequence {α β x y f g} hx hf r h := by
    rcases x with _ | e | a
    · cases h
    · rw [hx _ rfl]
      exact h
    · rw [hx _ rfl]
      exact hf a r h

theorem trace_succ {r : Except ReferenceError Json}
    (h : c.trace depth progress a reference = some r) :
    c.trace (depth + 1) progress a reference = some r := by
  induction depth generalizing progress a reference r with
  | zero => cases h
  | succ depth ih =>
    obtain ⟨-, hstep⟩ | ⟨-, e, -, hstep⟩ | ⟨-, node, -, hstep⟩ :=
      trace_cases c progress a reference
    · rw [hstep] at h ⊢
      exact h
    · rw [hstep] at h ⊢
      exact h
    · rw [hstep] at h ⊢
      exact Resolver.inlineNode_related sequential_result node (fun _ _ r hr => ih hr) r h

theorem trace_mono {r : Except ReferenceError Json} {more : Nat}
    (h : c.trace depth progress a reference = some r) (hle : depth ≤ more) :
    c.trace more progress a reference = some r := by
  induction hle with
  | refl => exact h
  | step _ ih => exact trace_succ ih

theorem sequential_isSome :
    Sequential fun α (x : Outcome α) (_ : Id α) => x ≠ none where
  result a h := by cases h
  sequence {α β x y f g} hx hf h := by
    rcases x with _ | e | a
    · exact hx rfl
    · cases h
    · exact hf a h

/-- Where references lead to finitely many places, there is a depth that is never exceeded: those
in progress are distinct. -/
theorem trace_ne_none {places : List String} (hplaces : ∀ a b, c.Leads a b → b.key ∈ places)
    (hab : c.Leads a (a.refer reference)) (hnodup : progress.Nodup) (hsub : progress ⊆ places)
    (hdepth : places.length < depth + progress.length) :
    c.trace depth progress a reference ≠ none := by
  induction depth generalizing progress a reference with
  | zero =>
    have := (hnodup.subperm hsub).length_le
    omega
  | succ depth ih =>
    obtain ⟨-, hstep⟩ | ⟨-, e, -, hstep⟩ | ⟨hk, node, ht, hstep⟩ :=
      trace_cases c progress a reference
    · rw [hstep]
      exact Option.some_ne_none _
    · rw [hstep]
      exact Option.some_ne_none _
    · rw [hstep]
      refine Resolver.inlineNode_related (g := fun _ => (Json.null : Id Json)) sequential_isSome
        node fun reference' hm => ?_
      have hsub' : (a.refer reference).key :: progress ⊆ places :=
        List.cons_subset.mpr ⟨hplaces _ _ hab, hsub⟩
      have hdepth' : places.length < depth + ((a.refer reference).key :: progress).length := by
        rw [List.length_cons]
        omega
      exact ih ⟨node, reference', ht, hm, rfl⟩ (List.nodup_cons.mpr ⟨hk, hnodup⟩) hsub' hdepth'

end Trace

/-! ## Unfolding from the root -/

namespace Corpus

variable (c : Corpus)

def outcome (depth : Nat) : Outcome Json :=
  match c.target .root with
  | .ok schema => inlineNode c.siblings (c.trace depth [] .root) schema
  | .error e => throw e

def Reaches (a : Address) : Prop := ReflTransGen c.Leads .root a

/-- Every reference that is met has a target, and none is met forever. -/
structure Unfolds : Prop where
  targets : ∀ a, c.Reaches a → ∃ node, c.target a = .ok node
  finite : ¬ ∃ chain : Nat → Address, chain 0 = .root ∧ ∀ n, c.Leads (chain n) (chain (n + 1))

end Corpus

section Outcome

variable {c : Corpus} {depth : Nat} {schema : Json} (hroot : c.target .root = .ok schema)
include hroot

theorem outcome_eq : c.outcome depth = inlineNode c.siblings (c.trace depth [] .root) schema := by
  rw [Corpus.outcome, hroot]

theorem outcome_error {e : ReferenceError} (h : c.outcome depth = some (.error e)) :
    ∃ a, c.Reaches a ∧ Fails c a e := by
  rw [outcome_eq hroot] at h
  refine Resolver.inlineNode_related (g := fun _ => (Json.null : Id Json))
    (sequential_error fun e => ∃ a, c.Reaches a ∧ Fails c a e) schema (fun reference hm e he => ?_)
    e h
  have hleads : c.Leads .root (Address.root.refer reference) := ⟨schema, reference, hroot, hm, rfl⟩
  obtain ⟨b, hb, hf⟩ := trace_error he .root hleads
  exact ⟨b, .head hleads hb, hf⟩

theorem expand_of_outcome {json : Json} (h : c.outcome depth = some (.ok json)) :
    c.expand (depth + 1) .root = some json := by
  rw [outcome_eq hroot] at h
  rw [Corpus.expand, hroot]
  exact Resolver.inlineNode_related sequential_ok schema (fun _ _ v => expand_of_trace) json h

theorem unfolds_of_outcome {json : Json} (h : c.outcome depth = some (.ok json)) : c.Unfolds := by
  have hexpand := expand_of_outcome hroot h
  constructor
  · intro a ha
    obtain ⟨less, v, hv⟩ := expand_reaches hexpand ha
    exact target_of_expand hv
  · intro hchain
    exact not_acc_iff_exists_descending_chain.mpr hchain (acc_of_expand hexpand)

theorem outcome_of_unfolds (h : c.Unfolds) (hends : c.outcome depth ≠ none) :
    ∃ json, c.outcome depth = some (.ok json) := by
  rcases hr : c.outcome depth with _ | e | json
  · exact absurd hr hends
  · exfalso
    obtain ⟨a, ha, ht | ⟨_, _, hcycle⟩⟩ := outcome_error hroot hr
    · obtain ⟨node, hnode⟩ := h.targets a ha
      rw [hnode] at ht
      cases ht
    · have hacc : Acc (fun x y => c.Leads y x) Address.root := by
        by_contra hacc
        exact h.finite (not_acc_iff_exists_descending_chain.mp hacc)
      exact no_cycle_of_acc (acc_of_reaches hacc ha) hcycle
  · exact ⟨json, rfl⟩

end Outcome

end SchemaLogic
