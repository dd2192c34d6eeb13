import SchemaLogic.Proofs.Malformed
import SchemaLogic.Proofs.MissingValue

/-! # Keywords in other passes

Two tables of built-in keywords that contain the same names may apply them in different passes. The
order decides which types are declared when a branch starts, and so which conditions are kept and
which fold. The same schemas compile. The missing value shows the order only where a schema that is
negated folds to `false` under one of the tables, and nothing else is asked for. -/
namespace SchemaLogic

/-- Tables with the same built-in keywords, in whatever passes. -/
structure Table.Rearranges (table other : Table) : Prop where
  left : table.Standard
  right : other.Standard
  same : ∀ name, table.contains name = other.contains name

section Tables

variable {table other : Table}

theorem Table.Rearranges.knows_iff (h : table.Rearranges other) {name : String} {k : Keyword} :
    table.Knows name k ↔ other.Knows name k := by
  rw [h.left.knows_iff, h.right.knows_iff, h.same]

theorem Table.Rearranges.symm (h : table.Rearranges other) : other.Rearranges table :=
  ⟨h.right, h.left, fun name => (h.same name).symm⟩

theorem Keyword.idle_layout {o : Options} (h : ∀ name, table.contains name = other.contains name)
    (k : Keyword) (members : Json.Members) (value : Json) :
    k.idle ⟨o, table, members, value, .input⟩ = k.idle ⟨o, other, members, value, .input⟩ := by
  cases k with
  | contains =>
    simp only [idle, Node.rule, Rule.known?, h]
    rfl
  | _ => rfl

/-- A schema object asks for something, whatever it negates. -/
def Asks (o : Options) (table : Table) (members : Json.Members) : Prop :=
  ∃ member ∈ members, ∃ k, table.Knows member.1 k ∧ k ∉ [.allOf, .not] ∧
    k.idle ⟨o, table, members, member.2, .input⟩ = false

theorem asks_layout {o : Options} (hr : table.Rearranges other) {members : Json.Members}
    (h : Asks o table members) : Asks o other members := by
  obtain ⟨member, hm, k, hk, hkept, hidle⟩ := h
  exact ⟨member, hm, k, hr.knows_iff.mp hk, hkept, k.idle_layout hr.same members member.2 ▸ hidle⟩

end Tables

/-- The schemas under these keywords are about the value itself, not about a part of it. -/
def Keyword.inPlace : Keyword → Bool
  | .anyOf | .oneOf | .allOf | .not => true
  | _ => false

section Readings

variable {f g : Enrich} {o : Options}

def GapAlike (f g : Enrich) (schema : Json) : Prop :=
  ∀ t t', f schema {} = .ok t → g schema {} = .ok t' → (t.Open ↔ t'.Open) ∧ (t.Void ↔ t'.Void)

theorem GapAlike.finalize {schema : Json} (h : GapAlike f g schema) {t t' : Reading}
    (ht : f schema {} = .ok t) (ht' : g schema {} = .ok t') :
    (t.finalize o).holds none = (t'.finalize o).holds none := by
  obtain ⟨hopen, hvoid⟩ := h t t' ht ht'
  rw [Bool.eq_iff_iff, Reading.holds_none_finalize, Reading.holds_none_finalize, hopen, hvoid]

theorem GapAlike.interpret {schema : Json} (h : GapAlike f g schema)
    {m m' : Meaning (Option Json)} (hm : f.interpret o schema = .ok m)
    (hm' : g.interpret o schema = .ok m') : m.holds none = m'.holds none := by
  cases schema with
  | bool b => cases b <;> cases hm <;> cases hm' <;> rfl
  | object members =>
    obtain ⟨t, ht, hm⟩ := bind_eq_ok.mp hm
    obtain ⟨t', ht', hm'⟩ := bind_eq_ok.mp hm'
    cases hm
    cases hm'
    exact h.finalize ht ht'
  | _ => cases hm

theorem branches_gap {n n' : Node} (ho : n.options = n'.options) {schemas : List Json}
    (h : ∀ part ∈ schemas, GapAlike f g part) {ms ms' : List (Meaning (Option Json))}
    (hms : n.branchMeanings f {} schemas = .ok ms)
    (hms' : n'.branchMeanings g {} schemas = .ok ms') :
    ms.map (·.holds none) = ms'.map (·.holds none) := by
  refine map_mapM_congr hms hms' fun part hpart m m' hm hm' => ?_
  obtain ⟨t, ht, hm⟩ := bind_eq_ok.mp hm
  obtain ⟨t', ht', hm'⟩ := bind_eq_ok.mp hm'
  cases hm
  cases hm'
  rw [ho]
  exact (h part hpart).finalize ht ht'

end Readings

section Layout

variable [Pattern.Engines] {o : Options} {table other : Table}

/-! ## Which schemas compile -/

theorem Keyword.legible_layout (h : ∀ name, table.contains name = other.contains name) (k : Keyword)
    (members : Json.Members) (value : Json) : k.legible ⟨o, table, members, value, .input⟩ =
      k.legible ⟨o, other, members, value, .input⟩ := by
  cases k with
  | contains => simp only [legible, Node.containsBound, h]; rfl
  | _ => rfl

theorem soundThroughout_layout (h : table.Rearranges other) {schema : Json}
    (hs : SoundThroughout o table schema) : SoundThroughout o other schema := by
  intro inner hinner
  induction hinner with
  | @root schema =>
    have sound := hs schema .root
    cases schema with
    | object members =>
      intro name value k hm hk
      rw [← k.legible_layout h.same]
      exact sound name value k hm (h.knows_iff.mpr hk)
    | _ => exact sound
  | inside hm hk hpart _ ih =>
    apply ih
    intro inner hinner
    exact hs inner (.inside hm (h.knows_iff.mpr hk) hpart hinner)

/-! ## One keyword at a time -/

/-- A schema object has a property if each of its keywords has it by itself. -/
theorem object_splits {P : Reading → Prop} (empty : P {}) {fuel : Nat} {members : Json.Members}
    (split : ∀ pass member, Splits P fun s =>
      enrichMember (enrichAt o table fuel) o table members pass s member) {t : Reading}
    (ht : enrichAt o table (fuel + 1) (.object members) {} = .ok t) :
    (∀ member ∈ members, ∀ k, table.Knows member.1 k → ∃ u,
      k.enrich (enrichAt o table fuel) ⟨o, table, members, member.2, .input⟩ {} = .ok u) ∧
    (P t ↔ ∀ member ∈ members, ∀ k, table.Knows member.1 k → ∀ u,
      k.enrich (enrichAt o table fuel) ⟨o, table, members, member.2, .input⟩ {} = .ok u → P u) := by
  have merge (pass : Pass) (member : String × Json) :=
    merges_member (merges_enrichAt o table fuel) table members pass member
  have hok := (Merges.foldlM_met (fun pass _ => .foldlM fun member _ => merge pass member) ht).1
  have known {pass : Pass} {name : String} {k : Keyword} {value : Json}
      (hget : pass.get? name = some k) :
      enrichMember (enrichAt o table fuel) o table members pass {} (name, value) =
        k.enrich (enrichAt o table fuel) ⟨o, table, members, value, .input⟩ {} := by
    simp only [enrichMember, hget]
  constructor
  · rintro ⟨name, value⟩ hm k ⟨pass, hp, hget⟩
    obtain ⟨u, hu⟩ := hok pass hp
    obtain ⟨v, hv⟩ := (Merges.foldlM_met (fun member _ => merge pass member) hu).1 _ hm
    exact ⟨v, known hget ▸ hv⟩
  · rw [Splits.foldlM_iff (fun pass _ => .foldlM fun member _ => merge pass member)
      (fun pass _ => .foldlM empty (fun member _ => merge pass member) fun member _ =>
        split pass member) ht, and_iff_right empty]
    -- The run goes over the passes, and in each of them over the members.
    have pass_iff (pass : Pass) (hp : pass ∈ table) :
        (∀ u, members.foldlM (enrichMember (enrichAt o table fuel) o table members pass) {} =
          .ok u → P u) ↔ ∀ member ∈ members, ∀ u,
            enrichMember (enrichAt o table fuel) o table members pass {} member = .ok u → P u := by
      obtain ⟨u, hu⟩ := hok pass hp
      rw [forall_ok_iff hu, Splits.foldlM_iff (fun member _ => merge pass member)
        (fun member _ => split pass member) hu, and_iff_right empty]
    constructor
    · rintro h ⟨name, value⟩ hm k ⟨pass, hp, hget⟩ u hu
      exact (pass_iff pass hp).mp (h pass hp) _ hm u (known hget ▸ hu)
    · intro h pass hp
      refine (pass_iff pass hp).mpr fun member hm u hu => ?_
      obtain ⟨name, value⟩ := member
      cases hget : pass.get? name with
      | none =>
        simp only [enrichMember, hget] at hu
        cases hu
        exact empty
      | some k => exact h _ hm k ⟨pass, hp, hget⟩ u (known hget ▸ hu)

theorem splits_known {P : Reading → Prop} (hP : Additive P) {fuel : Nat} {members : Json.Members}
    (pass : Pass) (member : String × Json) : Splits P fun s =>
      enrichMember (enrichAt o table fuel) o table members pass s member :=
  splits_member hP (merges_enrichAt o table fuel) (splits_enrichAt hP o table fuel) table members
    pass member

theorem splits_met {v : Json} (hv : o.separates v = true) {fuel : Nat} {members : Json.Members}
    (pass : Pass) (member : String × Json) : Splits (·.Met v) fun s =>
      enrichMember (enrichAt o table fuel) o table members pass s member :=
  fun _ _ _ hs ha =>
    (merges_member (merges_enrichAt o table fuel) table members pass member).met ha hs hv

theorem object_alike {P : Reading → Prop} (empty : P {}) (hr : table.Rearranges other)
    {fuel : Nat} {members : Json.Members}
    (split : ∀ (table : Table) pass member, Splits P fun s =>
      enrichMember (enrichAt o table fuel) o table members pass s member)
    (h : ∀ member ∈ members, ∀ k, table.Knows member.1 k → ∀ u u',
      k.enrich (enrichAt o table fuel) ⟨o, table, members, member.2, .input⟩ {} = .ok u →
      k.enrich (enrichAt o other fuel) ⟨o, other, members, member.2, .input⟩ {} = .ok u' →
      (P u ↔ P u')) {t t' : Reading}
    (ht : enrichAt o table (fuel + 1) (.object members) {} = .ok t)
    (ht' : enrichAt o other (fuel + 1) (.object members) {} = .ok t') : P t ↔ P t' := by
  obtain ⟨hok, hiff⟩ := object_splits empty (split table) ht
  obtain ⟨hok', hiff'⟩ := object_splits empty (split other) ht'
  rw [hiff, hiff']
  refine forall₂_congr fun member hm => forall_congr' fun k => ?_
  refine imp_congr_ctx hr.knows_iff fun hk' => ?_
  have hk := hr.knows_iff.mpr hk'
  obtain ⟨u, hu⟩ := hok member hm k hk
  obtain ⟨u', hu'⟩ := hok' member hm k hk'
  rw [forall_ok_iff hu, forall_ok_iff hu']
  exact h member hm k hk u u' hu hu'

/-! ## What a keyword leaves of the missing value -/

theorem branches_firm {n : Node} {fuel : Nat} {s : Reading} {schemas : List Json}
    {ms : List (Meaning (Option Json))}
    (hms : n.branchMeanings (enrichAt o table fuel) s schemas = .ok ms) :
    ∀ m ∈ ms, m.folds = false := by
  refine forall_mapM hms fun part _ m hm => ?_
  obtain ⟨t, ht, hm⟩ := bind_eq_ok.mp hm
  cases hm
  have fork : s.fork.Firm := Reading.firm_empty
  exact (firm_enrichAt o table fuel part fork ht).finalize _

/-- What is kept of a keyword can be told from its siblings, the combinators of schemas that are
merged or negated apart. -/
theorem void_iff_idle {fuel : Nat} {k : Keyword} {n : Node} (hk : k ∉ [.allOf, .not])
    {u : Reading} (ho : n.options = o) (hu : k.enrich (enrichAt o table fuel) n {} = .ok u) :
    u.Void ↔ k.idle n = true := by
  have empty : ({} : Reading).Void := additive_void.empty
  have kept {m : Meaning (Option Json)} (hm : m.folds = false) :
      ¬(({} : Reading).push .always m).Void := by
    intro hv
    have folds := ((Reading.void_pushAll {} .always [m]).mp hv).2
    simp [hm] at folds
  subst ho
  cases k with
  | allOf | not => simp at hk
  | type =>
    obtain ⟨types, -, hu⟩ := bind_eq_ok.mp hu
    cases hu
    exact iff_of_false (fun hv => nomatch hv.1) Bool.false_ne_true
  | anyOf =>
    obtain ⟨schemas, -, hu⟩ := bind_eq_ok.mp hu
    obtain ⟨ms, hms, hu⟩ := bind_eq_ok.mp hu
    cases hu
    refine iff_of_false (kept ?_) Bool.false_ne_true
    rw [Meaning.folds_disj, List.any_eq_false]
    exact fun m hm => by simp [branches_firm hms m hm]
  | oneOf =>
    obtain ⟨schemas, -, hu⟩ := bind_eq_ok.mp hu
    obtain ⟨ms, hms, hu⟩ := bind_eq_ok.mp hu
    cases hu
    exact iff_of_false (kept (Meaning.folds_one (branches_firm hms))) Bool.false_ne_true
  | _ =>
    obtain ⟨ms, hms, hu⟩ := bind_eq_ok.mp hu
    cases hu
    rw [Reading.void_pushAll, and_iff_right empty,
      folds_demands (interpret_firm _ table fuel) _ (by simp) hms]

/-- A negation leaves nothing where it folds. -/
theorem negation_reading {fuel : Nat} {n : Node} {u : Reading}
    (hu : Keyword.not.enrich (enrichAt o table fuel) n {} = .ok u) :
    ∃ m, (enrichAt o table fuel).interpret n.options n.value = .ok m ∧
      (u.Open ↔ m.holds none = false) ∧ (u.Void ↔ m.const? = some false) := by
  obtain ⟨ms, hms, hu⟩ := bind_eq_ok.mp hu
  obtain ⟨m, hm, hms⟩ := bind_eq_ok.mp hms
  cases hms
  cases hu
  refine ⟨m, hm, ?_, ?_⟩
  · rw [Reading.open_pushAll, and_iff_right additive_open.empty]
    simp [Keyword.bucket]
  · rw [Reading.void_pushAll, and_iff_right additive_void.empty]
    simp [Meaning.folds, Meaning.const?_negate]

theorem merged_alike {P : Reading → Prop} (hP : Additive P) {fuel : Nat} {schemas : List Json}
    (h : ∀ part ∈ schemas, ∀ t t', enrichAt o table fuel part {} = .ok t →
      enrichAt o other fuel part {} = .ok t' → (P t ↔ P t')) {u u' : Reading}
    (hu : schemas.foldlM (fun s part => enrichAt o table fuel part s) {} = .ok u)
    (hu' : schemas.foldlM (fun s part => enrichAt o other fuel part s) {} = .ok u') :
    P u ↔ P u' := by
  have merges (table : Table) (part : Json) := merges_enrichAt o table fuel part
  have splits (table : Table) (part : Json) := splits_enrichAt hP o table fuel part
  rw [Splits.foldlM_iff (fun part _ => merges table part) (fun part _ => splits table part) hu,
    Splits.foldlM_iff (fun part _ => merges other part) (fun part _ => splits other part) hu']
  refine and_congr_right' (forall₂_congr fun part hpart => ?_)
  obtain ⟨t, ht⟩ := (Merges.foldlM_met (fun part _ => merges table part) hu).1 part hpart
  obtain ⟨t', ht'⟩ := (Merges.foldlM_met (fun part _ => merges other part) hu').1 part hpart
  rw [forall_ok_iff ht, forall_ok_iff ht']
  exact h part hpart t t' ht ht'

theorem open_alike {fuel : Nat} {name : String} {k : Keyword} (hk : Keyword.ofName? name = some k)
    {members : Json.Members} {value : Json}
    (h : k.inPlace = true → ∀ part ∈ k.parts value,
      GapAlike (enrichAt o table fuel) (enrichAt o other fuel) part) {u u' : Reading}
    (hu : k.enrich (enrichAt o table fuel) ⟨o, table, members, value, .input⟩ {} = .ok u)
    (hu' : k.enrich (enrichAt o other fuel) ⟨o, other, members, value, .input⟩ {} = .ok u') :
    u.Open ↔ u'.Open := by
  have pushed (m : Meaning (Option Json)) :
      (({} : Reading).push .always m).Open ↔ m.holds none = true := by
    refine (Reading.open_pushAll {} .always [m]).trans ?_
    simp [additive_open.empty]
  have aside {b : Bucket} (hb : b ≠ .always) (ms : List (Meaning (Option Json))) :
      (({} : Reading).pushAll b ms).Open :=
    (Reading.open_pushAll {} b ms).mpr ⟨additive_open.empty, fun ha => absurd ha hb⟩
  -- The branches of a combinator are finished by themselves, and only then combined.
  have combined {combine : List (Meaning (Option Json)) → Meaning (Option Json)}
      {verdict : List Bool → Bool} (hc : Combines combine verdict) {schemas : List Json}
      (h : ∀ part ∈ schemas, GapAlike (enrichAt o table fuel) (enrichAt o other fuel) part)
      (hu : (Node.branchMeanings ⟨o, table, members, value, .input⟩ (enrichAt o table fuel) {}
        schemas >>= fun ms => pure (({} : Reading).push .always (combine ms))) = .ok u)
      (hu' : (Node.branchMeanings ⟨o, other, members, value, .input⟩ (enrichAt o other fuel) {}
        schemas >>= fun ms => pure (({} : Reading).push .always (combine ms))) = .ok u') :
      u.Open ↔ u'.Open := by
    obtain ⟨ms, hms, hu⟩ := bind_eq_ok.mp hu
    obtain ⟨ms', hms', hu'⟩ := bind_eq_ok.mp hu'
    cases hu
    cases hu'
    rw [pushed, pushed, hc ms, hc ms', branches_gap rfl h hms hms']
  cases k with
  | custom c => exact absurd rfl ((name_of_ofName? hk).2 c)
  | type =>
    obtain ⟨types, -, hu⟩ := bind_eq_ok.mp hu
    obtain ⟨types', -, hu'⟩ := bind_eq_ok.mp hu'
    cases hu
    cases hu'
    exact iff_of_false (fun ho => nomatch ho.1) fun ho => nomatch ho.1
  | anyOf => exact combined combines_disj (h rfl) (read_items hu) (read_items hu')
  | oneOf => exact combined combines_one (h rfl) (read_items hu) (read_items hu')
  | allOf =>
    refine merged_alike additive_open (fun part hp t t' ht ht' => ?_) (read_items hu)
      (read_items hu')
    exact (h rfl part hp t t' ht ht').1
  | not =>
    obtain ⟨m, hm, hopen, -⟩ := negation_reading hu
    obtain ⟨m', hm', hopen', -⟩ := negation_reading hu'
    rw [hopen, hopen', (h rfl value (by simp [Keyword.parts])).interpret hm hm']
  | enum | const =>
    obtain rfl : u = u' := Except.ok.inj (hu.symm.trans hu')
    rfl
  | _ =>
    obtain ⟨ms, -, hu⟩ := bind_eq_ok.mp hu
    obtain ⟨ms', -, hu'⟩ := bind_eq_ok.mp hu'
    cases hu
    cases hu'
    exact iff_of_true (aside (by simp [Keyword.bucket]) ms) (aside (by simp [Keyword.bucket]) ms')

theorem void_alike (hr : table.Rearranges other) {fuel : Nat} {k : Keyword} (hk : k ≠ .not)
    {members : Json.Members} {value : Json}
    (h : k.inPlace = true → ∀ part ∈ k.parts value,
      GapAlike (enrichAt o table fuel) (enrichAt o other fuel) part) {u u' : Reading}
    (hu : k.enrich (enrichAt o table fuel) ⟨o, table, members, value, .input⟩ {} = .ok u)
    (hu' : k.enrich (enrichAt o other fuel) ⟨o, other, members, value, .input⟩ {} = .ok u') :
    u.Void ↔ u'.Void := by
  by_cases hall : k = .allOf
  · subst hall
    refine merged_alike additive_void (fun part hp t t' ht ht' => ?_) (read_items hu)
      (read_items hu')
    exact (h rfl part hp t t' ht ht').2
  · have kept : k ∉ [.allOf, .not] := by simp [hall, hk]
    rw [void_iff_idle kept rfl hu, void_iff_idle kept rfl hu', k.idle_layout hr.same]

theorem not_void_of_asks {fuel : Nat} {members : Json.Members} (h : Asks o table members)
    {t : Reading} (ht : enrichAt o table (fuel + 1) (.object members) {} = .ok t) : ¬t.Void := by
  intro hvoid
  obtain ⟨member, hm, k, hk, hkept, hidle⟩ := h
  obtain ⟨hok, hiff⟩ := object_splits additive_void.empty (splits_known additive_void) ht
  obtain ⟨u, hu⟩ := hok member hm k hk
  have idle := (void_iff_idle hkept rfl hu).mp (hiff.mp hvoid member hm k hk u hu)
  rw [hidle] at idle
  cases idle

/-! ## Schemas that negate -/

/-- A schema folds to `false` under both tables or under neither. -/
def FoldsAlike (o : Options) (table other : Table) (schema : Json) : Prop :=
  ∀ p q, compile schema table o = .ok p → compile schema other o = .ok q →
    (p.root = .const false ↔ q.root = .const false)

/-- Where a schema object negates in place, the negation is kept by both tables or by neither, or
something else is asked for. -/
inductive Anchored (o : Options) (table other : Table) : Json → Prop where
  | plain {schema} : schema.members? = none → Anchored o table other schema
  | object {members} :
      (∀ member ∈ members, table.Knows member.1 .not →
        Asks o table members ∨ FoldsAlike o table other member.2) →
      (∀ member ∈ members, ∀ k, table.Knows member.1 k → k.inPlace = true →
        ∀ part ∈ k.parts member.2, Anchored o table other part) →
      Anchored o table other (.object members)

theorem anchored_of_flat (hs : table.Standard) {members : Json.Members}
    (h : (members.all fun member => (Keyword.ofName? member.1).all (!·.inPlace)) = true) :
    Anchored o table other (.object members) := by
  have flat {member : String × Json} (hm : member ∈ members) {k : Keyword}
      (hk : table.Knows member.1 k) : k.inPlace = false := by
    have plain := List.all_eq_true.mp h member hm
    rw [(hs.knows_iff.mp hk).1] at plain
    simpa using plain
  refine .object ?_ fun member hm k hk hplace => ?_
  · intro member hm hk
    cases flat hm hk
  · rw [flat hm hk] at hplace
    cases hplace

theorem anchored_negation (hs : table.Standard) {schema : Json}
    (hf : FoldsAlike o table other schema) (ha : Anchored o table other schema) :
    Anchored o table other (.object [("not", schema)]) := by
  refine .object (fun member hm _ => ?_) fun member hm k hk _ part hpart => ?_
  · cases List.mem_singleton.mp hm
    exact .inr hf
  · cases List.mem_singleton.mp hm
    cases hs.eq_of_knows hk rfl
    cases List.mem_singleton.mp hpart
    exact ha

theorem root_of_meaning {schema : Json} {m : Meaning (Option Json)}
    (hm : meaning o table schema = .ok m) : ∃ p, compile schema table o = .ok p ∧
      p.evaluate none = m.holds none ∧ (p.root = .const false ↔ m.const? = some false) := by
  obtain ⟨p, hp⟩ := compile_of_meaning hm
  obtain ⟨m', hm', hc⟩ := compile_ok hp
  obtain rfl : m = m' := Except.ok.inj (hm.symm.trans hm')
  refine ⟨p, hp, hc.evaluate none, ?_⟩
  rw [← hc.realises.const]
  exact ⟨fun hroot => hroot ▸ rfl, Expr.eq_const_of_const?⟩

theorem FoldsAlike.const? {schema : Json} (h : FoldsAlike o table other schema)
    {m m' : Meaning (Option Json)} (hm : meaning o table schema = .ok m)
    (hm' : meaning o other schema = .ok m') : m.const? = some false ↔ m'.const? = some false := by
  obtain ⟨p, hp, -, hroot⟩ := root_of_meaning hm
  obtain ⟨q, hq, -, hroot'⟩ := root_of_meaning hm'
  rw [← hroot, ← hroot', h p q hp hq]

theorem gapAlike_enrichAt (hr : table.Rearranges other) {schema : Json}
    (ha : Anchored o table other schema) {fuel : Nat} (hd : schema.depth < fuel) :
    GapAlike (enrichAt o table fuel) (enrichAt o other fuel) schema := by
  -- By induction on the fuel: the schemas in place have less of it.
  induction fuel generalizing schema with
  | zero => omega
  | succ fuel ih =>
    intro t t' ht ht'
    cases ha with
    | plain hp =>
      cases schema with
      | object members => cases hp
      | bool b => cases b <;> cases ht <;> cases ht' <;> exact ⟨Iff.rfl, Iff.rfl⟩
      | _ => cases ht
    | @object members hneg hparts =>
      have less {member : String × Json} (hm : member ∈ members) : member.2.depth < fuel := by
        have := Json.depth_member hm
        omega
      have inner (member : String × Json) (hm : member ∈ members) (k : Keyword)
          (hk : table.Knows member.1 k) (hplace : k.inPlace = true) :
          ∀ part ∈ k.parts member.2,
            GapAlike (enrichAt o table fuel) (enrichAt o other fuel) part :=
        fun part hpart => ih (hparts member hm k hk hplace part hpart)
          (Nat.lt_of_le_of_lt (Keyword.parts_inside hpart).depth_le (less hm))
      constructor
      · refine object_alike additive_open.empty hr (fun _ => splits_known additive_open)
          (fun member hm k hk u u' hu hu' => ?_) ht ht'
        exact open_alike (hr.left.knows_iff.mp hk).1 (inner member hm k hk) hu hu'
      · -- What is asked for besides a negation outweighs whether the negation is kept.
        by_cases hasks : Asks o table members
        · exact iff_of_false (not_void_of_asks hasks ht)
            (not_void_of_asks (asks_layout hr hasks) ht')
        · refine object_alike additive_void.empty hr (fun _ => splits_known additive_void)
            (fun member hm k hk u u' hu hu' => ?_) ht ht'
          by_cases hnot : k = .not
          · subst hnot
            have folds := (hneg member hm hk).resolve_left hasks
            obtain ⟨m, hint, -, hvoid⟩ := negation_reading hu
            obtain ⟨m', hint', -, hvoid'⟩ := negation_reading hu'
            rw [hvoid, hvoid']
            exact folds.const? (interpret_fuel o table (less hm) ▸ hint)
              (interpret_fuel o other (less hm) ▸ hint')
          · exact void_alike hr hnot (inner member hm k hk) hu hu'

def MissedAlike (o : Options) (table other : Table) (schema : Json) : Prop :=
  ∀ p q, compile schema table o = .ok p → compile schema other o = .ok q →
    p.evaluate none = q.evaluate none

theorem Anchored.missedAlike (hr : table.Rearranges other) {schema : Json}
    (ha : Anchored o table other schema) : MissedAlike o table other schema := by
  intro p q hp hq
  obtain ⟨m, hm, hc⟩ := compile_ok hp
  obtain ⟨m', hm', hc'⟩ := compile_ok hq
  rw [hc.evaluate, hc'.evaluate]
  exact (gapAlike_enrichAt hr ha (Nat.lt_succ_self _)).interpret hm hm'

theorem evaluate_negation (hs : table.Standard) (hk : table.Knows "not" .not) {schema : Json}
    {p : Predicate} (hp : compile (.object [("not", schema)]) table o = .ok p) :
    ∃ q, compile schema table o = .ok q ∧
      (p.evaluate none = true ↔ q.evaluate none = false ∧ q.root ≠ .const false) := by
  obtain ⟨m, hm, hc⟩ := compile_ok hp
  obtain ⟨t, ht, hm⟩ := bind_eq_ok.mp hm
  cases hm
  have member : ("not", schema) ∈ [("not", schema)] := .head _
  have split {P : Reading → Prop} (hP : Additive P) {u : Reading}
      (hu : Keyword.not.enrich (enrichAt o table (Json.object [("not", schema)]).depth)
        ⟨o, table, [("not", schema)], schema, .input⟩ {} = .ok u) : P t ↔ P u := by
    rw [(object_splits hP.empty (splits_known hP) ht).2]
    constructor
    · exact fun hall => hall _ member _ hk u hu
    · intro hP member hm k hk' u' hu'
      cases List.mem_singleton.mp hm
      cases hs.eq_of_knows hk' rfl
      exact Except.ok.inj (hu.symm.trans hu') ▸ hP
  have read := (object_splits additive_open.empty (splits_known additive_open) ht).1
  obtain ⟨u, hu⟩ := read _ member _ hk
  obtain ⟨m, hint, hopen, hvoid⟩ := negation_reading hu
  rw [interpret_fuel o table (Json.depth_member member)] at hint
  obtain ⟨q, hq, hnone, hroot⟩ := root_of_meaning hint
  refine ⟨q, hq, ?_⟩
  rw [hc.evaluate, Reading.holds_none_finalize, split additive_open hu, split additive_void hu,
    hopen, hvoid, hnone, Ne, hroot]

/-- A schema that only negates shows the order of the passes exactly if what it negates folds to
`false` under one of the tables. -/
theorem missedAlike_negation_iff (hr : table.Rearranges other) (hk : table.Knows "not" .not)
    {schema : Json} (h : MissedAlike o table other schema) :
    MissedAlike o table other (.object [("not", schema)]) ↔ FoldsAlike o table other schema := by
  have hk' : other.Knows "not" .not := hr.knows_iff.mp hk
  have refused {p : Predicate} (hroot : p.root = .const false) : p.evaluate none = false := by
    rw [Predicate.evaluate, hroot]
    rfl
  constructor
  · intro hmissed p q hp hq
    have negated {table : Table} (hs : table.Standard) {p : Predicate}
        (hp : compile schema table o = .ok p) :
        ∃ n, compile (.object [("not", schema)]) table o = .ok n := by
      rw [compile_ok_iff, soundThroughout_object]
      intro member hm k hk
      cases List.mem_singleton.mp hm
      cases hs.eq_of_knows hk rfl
      refine ⟨rfl, rfl, fun part hpart => ?_⟩
      cases List.mem_singleton.mp hpart
      exact (compile_ok_iff schema).mp ⟨p, hp⟩
    obtain ⟨n, hn⟩ := negated hr.left hp
    obtain ⟨n', hn'⟩ := negated hr.right hq
    obtain ⟨p', hp', hiff⟩ := evaluate_negation hr.left hk hn
    obtain ⟨q', hq', hiff'⟩ := evaluate_negation hr.right hk' hn'
    obtain rfl : p = p' := Except.ok.inj (hp.symm.trans hp')
    obtain rfl : q = q' := Except.ok.inj (hq.symm.trans hq')
    rw [hmissed n n' hn hn', hiff', h p q hp hq] at hiff
    constructor
    · intro hroot
      by_contra hne
      have none_q : q.evaluate none = false := (h p q hp hq).symm.trans (refused hroot)
      exact (hiff.mp ⟨none_q, hne⟩).2 hroot
    · intro hroot
      by_contra hne
      exact (hiff.mpr ⟨refused hroot, hne⟩).2 hroot
  · intro hfolds n n' hn hn'
    obtain ⟨p, hp, hiff⟩ := evaluate_negation hr.left hk hn
    obtain ⟨q, hq, hiff'⟩ := evaluate_negation hr.right hk' hn'
    rw [Bool.eq_iff_iff, hiff, hiff', h p q hp hq, Ne, Ne, hfolds p q hp hq]

end Layout

end SchemaLogic
