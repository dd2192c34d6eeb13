import SchemaLogic.Proofs.Compilation
import SchemaLogic.Proofs.KeywordMeaning

/-! # Compiled schemas judge as the direct interpretation

A reading enriched by a keyword alone is met by the values of which the keyword holds. Readings
merge, so a reading enriched by a schema object is met by the values of which all its keywords
hold. -/
namespace SchemaLogic

/-! ## Declared types -/

theorem TypeSet.admits_insert (s : TypeSet) (t : JsonType) (v : Json) :
    (s.insert t).admits v = (t.admits v || s.admits v) := by
  cases v with
  | number n =>
    simp only [admits, insert]
    cases t <;> simp only [JsonType.admits] <;> cases n.isInteger <;>
      cases s.contains .number <;> cases s.contains .integer <;> rfl
  | _ => cases t <;> simp [admits, insert, JsonType.admits]

theorem TypeSet.admits_ofList (ts : List JsonType) (v : Json) :
    (ofList ts).admits v = ts.any (·.admits v) := by
  have fold (s : TypeSet) : (ts.foldl insert s).admits v = (s.admits v || ts.any (·.admits v)) := by
    induction ts generalizing s with
    | nil => simp
    | cons t ts ih => rw [List.foldl_cons, ih, admits_insert, List.any_cons, ← Bool.or_assoc,
        Bool.or_comm (t.admits v)]
  have empty : TypeSet.empty.admits v = false := by cases v <;> rfl
  rw [ofList, fold, empty, Bool.false_or]

theorem declaredTypes_ok [Pattern.Engines] {n : Node} {types : TypeSet}
    (h : Node.declaredTypes n.value = .ok types) (accepts : Accepts) (v : Json) :
    types.admits v = Keyword.type.holds accepts n.rule v := by
  simp only [Keyword.holds, Rule.typeNames, Node.rule]
  cases hv : n.value with
  | string name =>
    simp only [Node.declaredTypes, hv] at h
    split at h
    · next t ht =>
      cases h
      have ht : JsonType.ofName? name = some t := ht
      simp [TypeSet.admits_ofList, ht]
    · cases h
  | array names =>
    simp only [Node.declaredTypes, hv] at h
    split at h
    · next ts hts =>
      cases h
      rw [TypeSet.admits_ofList, ← filterMap_of_mapM hts]
      simp only [Json.texts, Json.elements, Json.items?, Option.getD_some, List.any_filterMap]
      refine List.any_congr rfl fun name => ?_
      cases name.string? with
      | none => rfl
      | some text => cases JsonType.ofName? text <;> rfl
    · cases h
  | _ => simp [Node.declaredTypes, hv, refuse] at h

/-! ## One keyword -/

/-- Enriching an empty reading by a schema leaves the values that the schema accepts. -/
structure Enrich.Judges (enrich : Enrich) (o : Options) (accepts : Accepts) : Prop where
  interpret : (enrich.interpret o).Judges accepts
  met : ∀ sub t, enrich sub {} = .ok t → ∀ v, t.Met v ↔ accepts sub v = true
  merges : ∀ sub, Merges o (enrich sub)
  separates : ∀ v, o.separates v = true

section Keywords

variable {enrich : Enrich} {accepts : Accepts} {n : Node} {t : Reading}

theorem expectNonEmptyArray_ok {keyword : String} {value : Json} {items : List Json}
    (h : expectNonEmptyArray keyword value = .ok items) : value = .array items := by
  cases value with
  | array all =>
    cases all <;> cases h
    rfl
  | _ => cases h

theorem items_of_nonEmptyArray {keyword : String} {value : Json} {schemas : List Json}
    (h : expectNonEmptyArray keyword value = .ok schemas) : value.items?.getD [] = schemas := by
  rw [expectNonEmptyArray_ok h]
  rfl

theorem read_items {α : Type} {keyword : String} {value : Json}
    {f : List Json → Except CompileError α} {a : α}
    (h : expectNonEmptyArray keyword value >>= f = .ok a) : f (value.items?.getD []) = .ok a := by
  obtain ⟨schemas, hs, h⟩ := bind_eq_ok.mp h
  rw [items_of_nonEmptyArray hs]
  exact h

theorem Says.met [Pattern.Engines] {k : Keyword} {interpret : Interpret} {p : Json → Bool}
    (h : Says k.bucket (k.demands interpret n) p)
    (ht : (k.demands interpret n >>= fun ms => pure (({} : Reading).pushAll k.bucket ms)) = .ok t)
    (v : Json) : t.Met v ↔ p v = true := by
  rw [bind_eq_ok] at ht
  obtain ⟨ms, hms, ht⟩ := ht
  cases ht
  rw [Reading.met_pushAll, and_iff_right (Reading.met_empty v), ← h ms hms v]
  cases k.bucket.covers v <;> simp

theorem branchMeanings_ok (h : enrich.Judges n.options accepts) {schemas : List Json}
    {ms : List (Meaning (Option Json))} (hms : n.branchMeanings enrich {} schemas = .ok ms)
    (v : Json) : ms.map (·.holds (some v)) = schemas.map (accepts · v) := by
  refine map_mapM hms fun sub _ m hm => ?_
  rw [bind_eq_ok] at hm
  obtain ⟨branch, hb, hm⟩ := hm
  cases hm
  rw [Bool.eq_iff_iff, Reading.holds_finalize (h.separates v)]
  exact h.met sub branch hb v

theorem branches_met (h : enrich.Judges n.options accepts)
    {combine : List (Meaning (Option Json)) → Meaning (Option Json)} {verdict : List Bool → Bool}
    (hc : Combines combine verdict) {schemas : List Json} {ms : List (Meaning (Option Json))}
    (hms : n.branchMeanings enrich {} schemas = .ok ms) (v : Json) :
    (({} : Reading).push .always (combine ms)).Met v ↔
      verdict (schemas.map (accepts · v)) = true := by
  rw [Reading.met_push, and_iff_right (Reading.met_empty v), hc ms, branchMeanings_ok h hms v]
  exact forall_prop_of_true rfl

theorem conjunction_met (h : enrich.Judges n.options accepts) {schemas : List Json}
    (ht : schemas.foldlM (fun s sub => enrich sub s) {} = .ok t) (v : Json) :
    t.Met v ↔ schemas.all (accepts · v) = true := by
  obtain ⟨hok, hmet⟩ := Merges.foldlM_met (fun sub _ => h.merges sub) ht
  rw [hmet v (h.separates v), and_iff_right (Reading.met_empty v), List.all_eq_true]
  apply forall₂_congr
  intro sub hsub
  obtain ⟨u, hu⟩ := hok sub hsub
  rw [forall_ok_iff hu]
  exact h.met sub u hu v

def HasRequired (schema : Json.Members) (v : Json) : Prop :=
  ∀ value, schema.lookup "required" = some value → ∀ members, v = .object members →
    ∀ name ∈ value.texts, (members.lookup name).isSome = true

theorem required_holds [Pattern.Engines] {r : Rule} {v : Json} :
    Keyword.required.holds accepts r v = true ↔
      ∀ members, v = .object members → ∀ name ∈ r.value.texts,
        (members.lookup name).isSome = true := by
  cases v <;> simp [Keyword.holds, Json.members?]

theorem requiredNames_eq (n : Node) :
    n.requiredNames = ((n.members.lookup "required").getD .null).texts := by
  simp only [Node.requiredNames, Node.sibling?]
  rcases n.members.lookup "required" with _ | value
  · rfl
  · cases value <;> rfl

/-- The names that `properties` counts on are those that `required` lists. -/
theorem HasRequired.present {members : Json.Members}
    (h : HasRequired n.members (.object members)) :
    ∀ name ∈ n.requiredNames, (members.lookup name).isSome = true := by
  intro name hname
  rw [requiredNames_eq] at hname
  cases hs : n.members.lookup "required" with
  | none => simp [hs, Json.texts, Json.elements, Json.items?] at hname
  | some value => exact h value hs members rfl name (by simpa [hs] using hname)

theorem enrich_met [Pattern.Engines] (h : enrich.Judges n.options accepts) (k : Keyword)
    (ht : k.enrich enrich n {} = .ok t) (v : Json)
    (required : k = .properties → HasRequired n.members v) :
    t.Met v ↔ k.holds accepts n.rule v = true := by
  have hi := h.interpret
  cases k with
  | type =>
    simp only [Keyword.enrich, bind_eq_ok] at ht
    obtain ⟨types, htypes, ht⟩ := ht
    cases ht
    rw [Reading.met_declare, and_iff_right (Reading.met_empty v),
      declaredTypes_ok htypes accepts]
  | anyOf =>
    simp only [Keyword.enrich, bind_eq_ok] at ht
    obtain ⟨schemas, hs, ms, hms, ht⟩ := ht
    cases ht
    rw [branches_met h combines_disj hms, List.any_map]
    simp only [Keyword.holds, Node.rule, expectNonEmptyArray_ok hs]
    rfl
  | oneOf =>
    simp only [Keyword.enrich, bind_eq_ok] at ht
    obtain ⟨schemas, hs, ms, hms, ht⟩ := ht
    cases ht
    rw [branches_met h combines_one hms, List.countP_map]
    simp only [Keyword.holds, Node.rule, expectNonEmptyArray_ok hs]
    rfl
  | allOf =>
    simp only [Keyword.enrich, bind_eq_ok] at ht
    obtain ⟨schemas, hs, ht⟩ := ht
    rw [conjunction_met h ht]
    simp only [Keyword.holds, Node.rule, expectNonEmptyArray_ok hs]
    rfl
  | properties =>
    simp only [Keyword.enrich, bind_eq_ok] at ht
    obtain ⟨ms, hms, ht⟩ := ht
    cases ht
    rw [Reading.met_pushAll, and_iff_right (Reading.met_empty v), ← List.all_eq_true]
    cases v with
    | object members =>
      rw [says_properties hi n hms (required rfl).present]
      simp [Keyword.bucket, Bucket.covers]
    | _ => simp [Keyword.bucket, Bucket.covers, Keyword.holds, Json.members?]
  | _ => exact (demands_say hi n (by simp)).met ht v

end Keywords

/-! ## A schema object -/

section Objects

variable [Pattern.Engines] {o : Options} {table : Table} {members : Json.Members} {enrich : Enrich}
variable {accepts : Accepts} {t : Reading}

theorem enrichPasses_met (h : enrich.Judges o accepts) {passes : List Pass}
    (ht : enrichPasses enrich o table members passes {} = .ok t) (v : Json) :
    (∀ pass ∈ passes, ∀ member ∈ members,
      ∃ u, enrichMember enrich o table members pass {} member = .ok u) ∧
    (t.Met v ↔ ∀ pass ∈ passes, ∀ member ∈ members, ∀ u,
      enrichMember enrich o table members pass {} member = .ok u → u.Met v) := by
  have step (pass : Pass) (member : String × Json) :=
    merges_member h.merges table members pass member
  obtain ⟨hok, hmet⟩ := Merges.foldlM_met
    (fun pass _ => .foldlM fun member _ => step pass member) ht
  have inner (pass : Pass) {u : Reading}
      (hu : members.foldlM (enrichMember enrich o table members pass) {} = .ok u) :=
    Merges.foldlM_met (fun member _ => step pass member) hu
  refine ⟨fun pass hp => ?_, ?_⟩
  · obtain ⟨u, hu⟩ := hok pass hp
    exact (inner pass hu).1
  · rw [hmet v (h.separates v), and_iff_right (Reading.met_empty v)]
    apply forall₂_congr
    intro pass hp
    obtain ⟨u, hu⟩ := hok pass hp
    rw [forall_ok_iff hu, (inner pass hu).2 v (h.separates v),
      and_iff_right (Reading.met_empty v)]

theorem enrichMember_met (h : enrich.Judges o accepts) {pass : Pass} {member : String × Json}
    (ht : enrichMember enrich o table members pass {} member = .ok t) (v : Json)
    (required : pass.get? member.1 = some .properties → HasRequired members v) :
    t.Met v ↔ (pass.get? member.1).all
      (fun k => k.holds accepts ⟨o, table, members, member.2⟩ v) = true := by
  rw [enrichMember] at ht
  cases hk : pass.get? member.1 with
  | none =>
    rw [hk] at ht
    cases ht
    simp [Reading.met_empty]
  | some k =>
    rw [hk] at ht
    rw [Option.all_some]
    exact enrich_met (n := ⟨o, table, members, member.2, .input⟩) h k ht v
      fun hp => required (hp ▸ hk)

def Table.Requires (table : Table) : Prop :=
  ∃ pass ∈ table, pass.get? "required" = some .required

/-- `required` is settled first: only where it holds is `properties` judged by itself. -/
theorem object_met (hreq : table.Requires) (h : enrich.Judges o accepts)
    (ht : enrichPasses enrich o table members table {} = .ok t) (v : Json) :
    t.Met v ↔ keywordsHold accepts o table members v = true := by
  obtain ⟨hok, hmet⟩ := enrichPasses_met h ht v
  rw [hmet, keywordsHold]
  simp only [List.all_eq_true]
  have agree (required : HasRequired members v) (pass : Pass) (hp : pass ∈ table)
      (member : String × Json) (hm : member ∈ members) :
      (∀ u, enrichMember enrich o table members pass {} member = .ok u → u.Met v) ↔
        (pass.get? member.1).all
          (fun k => k.holds accepts ⟨o, table, members, member.2⟩ v) = true := by
    obtain ⟨u, hu⟩ := hok pass hp member hm
    rw [forall_ok_iff hu]
    exact enrichMember_met h hu v fun _ => required
  constructor
  · intro hall
    have required : HasRequired members v := by
      intro value hs
      obtain ⟨pass, hp, hget⟩ := hreq
      obtain ⟨u, hu⟩ := hok pass hp _ (Json.mem_of_lookup hs)
      have hr : Keyword.required.enrich enrich ⟨o, table, members, value, .input⟩ {} = .ok u := by
        simpa [enrichMember, hget] using hu
      have judged := demands_say h.interpret ⟨o, table, members, value, .input⟩ (k := .required)
        (by simp)
      exact required_holds.mp ((judged.met hr v).mp (hall pass hp _ (Json.mem_of_lookup hs) u hu))
    intro pass' hp' member hm
    exact (agree required pass' hp' member hm).mp (hall pass' hp' member hm)
  · intro hall
    have required : HasRequired members v := by
      intro value hs
      obtain ⟨pass, hp, hget⟩ := hreq
      have holds := hall pass hp _ (Json.mem_of_lookup hs)
      rw [hget, Option.all_some] at holds
      exact required_holds.mp holds
    intro pass' hp' member hm
    exact (agree required pass' hp' member hm).mpr (hall pass' hp' member hm)

end Objects

theorem requires_of_draft {table : Table} (h : table = .draft6 ∨ table = .draft2020) :
    table.Requires := by
  rcases h with rfl | rfl
  · exact ⟨_, .head _, rfl⟩
  · exact ⟨_, .head _, rfl⟩

section Whole

variable [Pattern.Engines] {o : Options} {table : Table}

omit [Pattern.Engines] in
theorem judges_of_met {enrich : Enrich} {accepts : Accepts}
    (separates : ∀ v, o.separates v = true) (merges : ∀ sub, Merges o (enrich sub))
    (bool : ∀ b v, accepts (.bool b) v = b)
    (met : ∀ sub t, enrich sub {} = .ok t → ∀ v, t.Met v ↔ accepts sub v = true) :
    enrich.Judges o accepts where
  met := met
  merges := merges
  separates := separates
  interpret := by
    refine ⟨fun sub m hm x => ?_, fun x => bool false x⟩
    rcases interpret_cases hm with ⟨b, rfl, hb⟩ | ⟨members, t, rfl, ht, rfl⟩
    · rw [hb, bool]
    · rw [Bool.eq_iff_iff, Reading.holds_finalize (separates x)]
      exact met _ t ht x

theorem enrichAt_bool_met {fuel : Nat} {b : Bool} {t : Reading}
    (ht : enrichAt o table fuel (.bool b) {} = .ok t) (v : Json) : t.Met v ↔ b = true := by
  obtain _ | fuel := fuel
  · cases ht
  · cases b <;> cases ht
    · simp [Reading.met_push, Bucket.covers, Instance.isPresent]
    · simp [Reading.met_empty]

theorem judges_enrichAt (ho : o.noArrayObject = true) (hreq : table.Requires) (fuel : Nat) :
    (enrichAt o table fuel).Judges o (acceptsAt o table fuel) := by
  have separates (v : Json) : o.separates v = true := by simp [Options.separates, ho]
  have judges (fuel : Nat) :=
    judges_of_met separates (merges_enrichAt o table fuel) (acceptsAt_bool o table fuel)
  -- By induction on the fuel: the schemas inside a schema object have less of it.
  induction fuel with
  | zero =>
    apply judges
    intro sub t ht
    cases ht
  | succ fuel ih =>
    refine judges _ fun sub t ht v => ?_
    cases sub with
    | object members => exact object_met hreq ih ht v
    | bool b => rw [enrichAt_bool_met ht, acceptsAt_bool]
    | _ => cases ht

/-- A compiled schema accepts the values that the schema accepts by direct interpretation. -/
theorem isValid_eq_accepts {schema : Json} {p : Predicate}
    (ht : table = .draft6 ∨ table = .draft2020) (ho : o.noArrayObject = true)
    (h : compile schema table o = .ok p) (v : Json) : p.isValid v = accepts o table schema v := by
  obtain ⟨m, hm, hc⟩ := compile_ok h
  calc p.isValid v
    _ = m.holds (some v) := hc.evaluate (some v)
    _ = accepts o table schema v :=
      (judges_enrichAt ho (requires_of_draft ht) _).interpret.agrees schema m hm v

end Whole

/-- Types met in two members of a conjunction, a required member without a test for its presence,
and branches that know the declared types: a value that two branches accept is refused. -/
theorem conjunction_with_branches_judged :
    let schema : Json := .object [
      ("allOf", .array [.object [("type", .array [.string "object", .string "integer"])],
        .object [("minProperties", .number (.natural 1)),
          ("type", .array [.string "number", .string "object"])]]),
      ("oneOf", .array [.object [("properties", .object [("a", .object [("items", .bool false)])]),
        ("required", .array [.string "a"])], .object [("type", .string "object")]])]
    let v : Json := .object [("a", .array [])]
    ∃ p, compile schema .draft2020 .strict = .ok p ∧
      p.isValid v = accepts .strict .draft2020 schema v ∧ p.isValid v = false := by
  intro schema v
  have h : compile schema .draft2020 .strict = .ok _ := rfl
  exact ⟨_, h, isValid_eq_accepts (.inr rfl) rfl h v, rfl⟩

end SchemaLogic
