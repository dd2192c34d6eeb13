import SchemaLogic.Proofs.Compilation
import SchemaLogic.Proofs.Merging

/-! # `allOf` as a conjunction

The schemas under `allOf` merge into one reading. That is a conjunction of their verdicts for the
values that do not pass for an array and an object at once, and only for these. -/
namespace SchemaLogic

def Json.allOf (schemas : List Json) : Json := .object [("allOf", .array schemas)]

section Merged

variable [Pattern.Engines] {o : Options} {table : Table}

theorem isValid_eq_holds {schema : Json} {p : Predicate} {m : Meaning (Option Json)}
    (hp : compile schema table o = .ok p) (hm : meaning o table schema = .ok m) (v : Json) :
    p.isValid v = m.holds (some v) := by
  obtain ⟨m', hm', hc⟩ := compile_ok hp
  obtain rfl : m = m' := by simpa [hm] using hm'
  exact hc.evaluate (some v)

theorem meaning_of_enrichAt {members : Json.Members} {t : Reading}
    (h : enrichAt o table ((Json.object members).depth + 1) (.object members) {} = .ok t) :
    meaning o table (.object members) = .ok (t.finalize o) := by
  change (enrichAt o table _ (.object members) {} >>= fun t => pure (t.finalize o)) = _
  rw [h]
  rfl

theorem enrichAt_of_compile {schema : Json} {p : Predicate}
    (h : compile schema table o = .ok p) {fuel : Nat} (hf : schema.depth < fuel) :
    ∃ t, enrichAt o table fuel schema {} = .ok t ∧
      ∀ v, o.separates v = true → (t.Met v ↔ p.isValid v = true) := by
  obtain ⟨m, hm, hp⟩ := compile_ok h
  have verdict (v : Json) : p.isValid v = m.holds (some v) := hp.evaluate (some v)
  rw [← interpret_fuel o table hf] at hm
  obtain _ | fuel := fuel
  · omega
  rcases interpret_cases hm with ⟨b, rfl, hb⟩ | ⟨members, t, rfl, ht, rfl⟩
  · cases b
    · refine ⟨_, rfl, fun v _ => ?_⟩
      simp [verdict, hb, Reading.met_push, Bucket.covers, Instance.isPresent]
    · refine ⟨_, rfl, fun v _ => ?_⟩
      simp [verdict, hb, Reading.met_empty]
  · exact ⟨t, ht, fun v hv => by rw [verdict, Reading.holds_finalize hv]⟩

theorem enrichAt_single (fuel : Nat) (name : String) (value : Json) (s : Reading) :
    enrichAt o table (fuel + 1) (.object [(name, value)]) s =
      (table.filterMap (·.get? name)).foldlM (fun s k =>
        k.enrich (enrichAt o table fuel) ⟨o, table, [(name, value)], value, .input⟩ s) s := by
  have passes (known : List Pass) (s : Reading) :
      enrichPasses (enrichAt o table fuel) o table [(name, value)] known s =
        (known.filterMap (·.get? name)).foldlM (fun s k =>
          k.enrich (enrichAt o table fuel) ⟨o, table, [(name, value)], value, .input⟩ s) s := by
    induction known generalizing s with
    | nil => rfl
    | cons pass known ih =>
      rw [enrichPasses, List.foldlM_cons, List.foldlM_cons]
      simp only [List.foldlM_nil, bind_pure, enrichMember]
      cases hk : pass.get? name with
      | none =>
        rw [List.filterMap_cons_none (f := fun pass : Pass => pass.get? name) hk]
        exact ih s
      | some k =>
        rw [List.filterMap_cons_some (f := fun pass : Pass => pass.get? name) hk, List.foldlM_cons]
        exact congrArg _ (funext ih)
  exact passes table s

theorem enrichAt_allOf (ht : table = .draft6 ∨ table = .draft2020) (fuel : Nat)
    {schemas : List Json} (hs : schemas ≠ []) (s : Reading) :
    enrichAt o table (fuel + 1) (.allOf schemas) s =
      schemas.foldlM (fun s schema => enrichAt o table fuel schema s) s := by
  have known : table.filterMap (·.get? "allOf") = [.allOf] := by rcases ht with rfl | rfl <;> rfl
  obtain ⟨schema, rest, rfl⟩ := List.exists_cons_of_ne_nil hs
  rw [Json.allOf, enrichAt_single, known, List.foldlM_cons]
  simp only [List.foldlM_nil, bind_pure]
  rfl

/-- The verdict of `allOf` on a value is the conjunction of the verdicts of its schemas. -/
def Conjoins (table : Table) (o : Options) (v : Json) (schemas : List Json) : Prop :=
  ∃ q, compile (.allOf schemas) table o = .ok q ∧
    (q.isValid v = true ↔ ∀ schema ∈ schemas, ∀ p, compile schema table o = .ok p →
      p.isValid v = true)

theorem conjoins_of_separates (ht : table = .draft6 ∨ table = .draft2020) {v : Json}
    (hv : o.separates v = true) {schemas : List Json} (hs : schemas ≠ [])
    (hc : ∀ schema ∈ schemas, ∃ p, compile schema table o = .ok p) :
    Conjoins table o v schemas := by
  have inside : ∀ schema ∈ schemas, schema.depth < (Json.allOf schemas).depth := by
    intro schema hm
    have member : ("allOf", Json.array schemas) ∈ [("allOf", Json.array schemas)] := by simp
    exact Nat.lt_trans (Json.depth_item hm) (Json.depth_member member)
  have merges (schema : Json) := merges_enrichAt o table (Json.allOf schemas).depth schema
  have alone (schema : Json) (hm : schema ∈ schemas) {p : Predicate}
      (hp : compile schema table o = .ok p) := enrichAt_of_compile hp (inside schema hm)
  have hok : ∀ schema ∈ schemas,
      ∃ t, enrichAt o table (Json.allOf schemas).depth schema {} = .ok t := by
    intro schema hm
    obtain ⟨p, hp⟩ := hc schema hm
    exact (alone schema hm hp).imp fun t ht => ht.1
  obtain ⟨t, hfold⟩ := Merges.foldlM_ok (fun schema _ => merges schema) hok {}
  have hm : meaning o table (.allOf schemas) = .ok (t.finalize o) := by
    apply meaning_of_enrichAt
    exact (enrichAt_allOf ht _ hs {}).trans hfold
  obtain ⟨q, hq⟩ := compile_of_meaning hm
  refine ⟨q, hq, ?_⟩
  rw [isValid_eq_holds hq hm, Reading.holds_finalize hv,
    (Merges.foldlM_met (fun schema _ => merges schema) hfold).2 v hv,
    and_iff_right (Reading.met_empty v)]
  apply forall₂_congr
  intro schema hm
  obtain ⟨p, hp⟩ := hc schema hm
  obtain ⟨u, hu, hmet⟩ := alone schema hm hp
  rw [forall_ok_iff hp, forall_ok_iff hu]
  exact hmet v hv

def Json.typed (t : JsonType) : Json := .object [("type", .string t.name)]

theorem enrichAt_typed (ht : table = .draft6 ∨ table = .draft2020) (fuel : Nat) (t : JsonType)
    (s : Reading) :
    enrichAt o table (fuel + 1) (.typed t) s = .ok (s.declare (.ofList [t])) := by
  have known : table.filterMap (·.get? "type") = [.type] := by rcases ht with rfl | rfl <;> rfl
  rw [Json.typed, enrichAt_single, known]
  cases t <;> rfl

theorem meaning_typed (ht : table = .draft6 ∨ table = .draft2020) (t : JsonType) :
    meaning o table (.typed t) = .ok ((({} : Reading).declare (.ofList [t])).finalize o) := by
  apply meaning_of_enrichAt
  exact enrichAt_typed ht _ t {}

theorem meaning_allOf_typed (ht : table = .draft6 ∨ table = .draft2020) (t u : JsonType) :
    meaning o table (.allOf [.typed t, .typed u]) =
      .ok (((({} : Reading).declare (.ofList [t])).declare (.ofList [u])).finalize o) := by
  apply meaning_of_enrichAt
  apply (enrichAt_allOf ht _ (by simp) {}).trans
  have depth : (Json.allOf [.typed t, .typed u]).depth = 2 + 1 := by cases t <;> cases u <;> rfl
  rw [Json.allOf] at depth
  simp only [depth, List.foldlM_cons, List.foldlM_nil, enrichAt_typed ht]
  rfl

/-- Where an array passes for an object, it satisfies either type but not their conjunction. -/
theorem not_conjoins_types (ht : table = .draft6 ∨ table = .draft2020)
    (ho : o.noArrayObject = false) (items : List Json) :
    ¬ Conjoins table o (.array items) [.typed .array, .typed .object] := by
  rintro ⟨q, hq, hall⟩
  have either : ∀ schema ∈ [Json.typed .array, .typed .object], ∀ p,
      compile schema table o = .ok p → p.isValid (.array items) = true := by
    intro schema hm p hp
    rcases List.mem_pair.mp hm with rfl | rfl
    · rw [isValid_eq_holds hp (meaning_typed ht .array)]
      simp [Reading.finalize, Reading.declare, Reading.clauses, Reading.clause, TypeSet.ofList,
        TypeSet.insert, TypeSet.empty, Instance.hasType]
    · rw [isValid_eq_holds hp (meaning_typed ht .object)]
      simp [Reading.finalize, Reading.declare, Reading.clauses, Reading.clause, TypeSet.ofList,
        TypeSet.insert, TypeSet.empty, Instance.hasType, Scope.objectCheck, ho]
  have both : q.isValid (.array items) = false := by
    rw [isValid_eq_holds hq (meaning_allOf_typed ht .array .object)]
    simp [Reading.finalize, Reading.declare, Reading.clauses, TypeSet.ofList, TypeSet.insert,
      TypeSet.empty, TypeSet.intersect]
  rw [hall.mpr either] at both
  cases both

/-- `allOf` is a conjunction for every list of schemas that compile, except where an array passes
for an object. -/
theorem allOf_conjoins_iff (ht : table = .draft6 ∨ table = .draft2020) (o : Options) (v : Json) :
    (∀ schemas : List Json, schemas ≠ [] →
      (∀ schema ∈ schemas, ∃ p, compile schema table o = .ok p) → Conjoins table o v schemas) ↔
    o.noArrayObject = true ∨ v.isArray = false := by
  have separates : o.separates v = true ↔ o.noArrayObject = true ∨ v.isArray = false := by
    simp [Options.separates]
  constructor
  · intro hall
    by_contra hv
    obtain ⟨ho, hv⟩ : o.noArrayObject = false ∧ v.isArray = true := by simpa using hv
    cases v with
    | array items =>
      refine not_conjoins_types ht ho items (hall _ (by simp) fun schema hm => ?_)
      rcases List.mem_pair.mp hm with rfl | rfl
      · exact compile_of_meaning (meaning_typed ht .array)
      · exact compile_of_meaning (meaning_typed ht .object)
    | _ => cases hv
  · exact fun hv schemas hs hc => conjoins_of_separates ht (separates.mpr hv) hs hc

end Merged

/-- An empty array has the types array and object by default, one by one. -/
theorem allOf_not_conjoins_default :
    ¬ ∀ schemas : List Json, schemas ≠ [] →
      (∀ schema ∈ schemas, ∃ p, compile schema .draft2020 {} = .ok p) →
        Conjoins .draft2020 {} (.array []) schemas := by
  rw [allOf_conjoins_iff (.inr rfl) {} (.array [])]
  simp [Json.isArray]

end SchemaLogic
