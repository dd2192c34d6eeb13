import SchemaLogic.Builder
import SchemaLogic.Proofs.Compilation
import SchemaLogic.Proofs.PrunedKeywords

/-! # A resolver for schemas without references

Where no trigger of `dependentRequired` has the name of a store, a schema without references keeps
its meaning when it is inlined. -/
namespace SchemaLogic

open Resolver

theorem alike_interpret {siblings : Bool} {enrich : Enrich} {schema : Json}
    (h : ∀ s, Alike (enrich schema s) (enrich (prune siblings schema) s)) (o : Options) :
    Kept siblings (enrich.interpret o) schema := by
  cases schema with
  | object members =>
    obtain ⟨left, hleft⟩ := prune_object_shape siblings members
    rw [hleft] at h
    rw [Kept, hleft]
    exact (h {}).bind fun reading => .ok rfl
  | array items =>
    rw [Kept, prune_array]
    exact .error trivial
  | _ => exact .refl _

section Enrich

variable {siblings : Bool} {enrich : Enrich} {n : Node}

theorem alike_branchMeanings {schemas : List Json} {s : Reading}
    (h : ∀ schema ∈ schemas, ∀ s, Alike (enrich schema s) (enrich (prune siblings schema) s))
    (name : String) : Alike (n.branchMeanings enrich s schemas)
      ((n.pruned siblings name).branchMeanings enrich s (schemas.map (prune siblings))) :=
  alike_mapM fun schema hs => (h schema hs s.fork).bind fun _ => .ok rfl

theorem alike_enrich [Pattern.Engines] (k : Keyword) (hk : ∀ c, k ≠ .custom c)
    (hfree : n.value.lacks "$ref" = true)
    (hkeep : k = .dependentRequired → ∀ triggers, n.value = .object triggers →
      ∀ store ∈ storeKeywords, triggers.lookup store = none)
    (h : ∀ part ∈ k.parts n.value, ∀ s, Alike (enrich part s) (enrich (prune siblings part) s))
    (s : Reading) :
    Alike (k.enrich enrich n s) (k.enrich enrich (n.pruned siblings k.name) s) := by
  have arrays {keyword : String} (hn : Entered keyword) :=
    n.value_pruned siblings hn ▸ agree_expectNonEmptyArray siblings keyword n.value
  have hdemands : Alike (k.demands (enrich.interpret n.options) n)
      (k.demands (enrich.interpret n.options) (n.pruned siblings k.name)) :=
    alike_demands k hk hfree hkeep fun part hp => alike_interpret (h part hp) n.options
  cases k with
  | type =>
    refine Alike.bind ?_ fun types => .ok rfl
    rw [n.value_pruned siblings (by decide)]
    exact alike_declaredTypes siblings n.value
  | anyOf | oneOf =>
    refine (arrays (by decide)).bind ?_
    rintro schemas left ⟨hv, rfl⟩
    rw [hv] at h
    exact (alike_branchMeanings h _).bind fun ms => .ok rfl
  | allOf =>
    refine (arrays (by decide)).bind ?_
    rintro schemas left ⟨hv, rfl⟩
    rw [hv] at h
    exact alike_foldlM h s
  | _ => exact hdemands.bind fun ms => .ok rfl

end Enrich

theorem ofName?_name {k : Keyword} (hk : ∀ c, k ≠ .custom c) : Keyword.ofName? k.name = some k := by
  cases k with
  | custom c => exact absurd rfl (hk c)
  | _ => rfl

theorem name_of_ofName? {name : String} {k : Keyword} (h : Keyword.ofName? name = some k) :
    name = k.name ∧ ∀ c, k ≠ .custom c := by
  constructor
  · rw [Keyword.ofName?] at h
    have hname := List.find?_some h
    exact (beq_iff_eq.mp hname).symm
  · rintro c rfl
    have hmem := List.mem_of_find?_eq_some h
    simp [Keyword.builtIn] at hmem

def Table.Standard (table : Table) : Prop :=
  ∀ pass ∈ table, ∀ name k, Pass.get? pass name = some k → Keyword.ofName? name = some k

theorem standard_withPass {table : Table} (h : table.Standard) {ks : List Keyword}
    (hk : ∀ k ∈ ks, ∀ c, k ≠ .custom c) : (table.withPass ks).Standard := by
  have named (pass : Pass) (hp : ∀ entry ∈ pass, Keyword.ofName? entry.1 = some entry.2) :
      ∀ entry ∈ ks.foldl Pass.insert pass, Keyword.ofName? entry.1 = some entry.2 := by
    induction ks generalizing pass with
    | nil => exact hp
    | cons k ks ih =>
      refine ih (fun other ho => hk other (.tail _ ho)) (pass.insert k) fun entry he => ?_
      rcases List.mem_cons.mp he with rfl | he
      · exact ofName?_name (hk k (by simp))
      · exact hp entry (List.mem_of_mem_filter he)
  intro pass hp name k hget
  rcases List.mem_append.mp hp with hp | hp
  · exact h pass hp name k hget
  · rw [List.mem_singleton.mp hp] at hget
    obtain ⟨before, after, hsplit, -⟩ := List.lookup_eq_some_iff.mp hget
    refine named [] (fun entry he => nomatch he) (name, k) ?_
    rw [hsplit]
    simp

theorem standard_empty : Table.empty.Standard := by
  intro pass hp
  cases hp

theorem standard_of_draft {table : Table} (ht : table = .draft6 ∨ table = .draft2020) :
    table.Standard := by
  rcases ht with rfl | rfl
  · exact standard_withPass (standard_withPass standard_empty (by simp))
      (by simp [Table.combinators])
  · exact standard_withPass (standard_withPass standard_empty (by simp))
      (by simp [Table.combinators])

theorem get?_dropped {table : Table} (h : table.Standard) {pass : Pass} (hp : pass ∈ table)
    {member : String × Json} (hd : dropped member = true) : pass.get? member.1 = none := by
  cases hget : pass.get? member.1 with
  | none => rfl
  | some k =>
    exfalso
    obtain ⟨hname, hk⟩ := name_of_ofName? (h pass hp _ k hget)
    have hkept : k.name ∉ "$ref" :: storeKeywords := by
      cases k with
      | custom c => exact absurd rfl (hk c)
      | _ => decide
    simp only [dropped, Bool.or_eq_true, Bool.and_eq_true, List.contains_eq_mem, decide_eq_true_eq,
      beq_iff_eq, hname] at hd
    rcases hd with hd | hd
    · exact hkept (.tail _ hd)
    · exact hkept (hd.1 ▸ .head _)

/-- Where a table knows `dependentRequired`, no store is the name of a trigger. -/
def KeepsTriggers (table : Table) (schema : Json) : Prop :=
  ∀ members triggers, Subschema table schema (.object members) →
    table.contains "dependentRequired" = true →
    ("dependentRequired", .object triggers) ∈ members →
    ∀ store ∈ storeKeywords, List.lookup store triggers = none

theorem keepsTriggers_object {table : Table} (hs : table.Standard) {members : Json.Members}
    (here : ∀ triggers, ("dependentRequired", .object triggers) ∈ members →
      ∀ store ∈ storeKeywords, List.lookup store triggers = none)
    (inside : ∀ member ∈ members, ∀ k, Keyword.ofName? member.1 = some k →
      ∀ part ∈ k.parts member.2, KeepsTriggers table part) :
    KeepsTriggers table (.object members) := by
  intro inner triggers hinner hc hm
  cases hinner with
  | self => exact here triggers hm
  | inside hmember hp hget hpart hrest =>
    exact inside _ hmember _ (hs _ hp _ _ hget) _ hpart inner triggers hrest hc hm

theorem lacks_inside {name : String} {json part : Json} (h : json.lacks name = true)
    (hp : Json.Inside part json) : part.lacks name = true := by
  induction hp with
  | self => exact h
  | item hi _ ih => exact ih (Json.lacks_item h _ hi)
  | member hm _ ih => exact ih (Json.lacks_member h _ hm).2

theorem Subschema.lacks {table : Table} {schema inner : Json} (h : Subschema table schema inner)
    {name : String} (hlacks : schema.lacks name = true) : inner.lacks name = true := by
  induction h with
  | self => exact hlacks
  | inside hmember _ _ hpart _ ih =>
    have value := (Json.lacks_member hlacks _ hmember).2
    exact ih (lacks_inside value (Keyword.parts_inside hpart))

section Whole

variable [Pattern.Engines] {o : Options} {table : Table} {siblings : Bool}

/-- One pass over the members of a schema; `rest` is what is left of them. -/
theorem alike_pass {enrich : Enrich} {pass : Pass} {members : Json.Members}
    (hdropped : ∀ member, dropped member = true → pass.get? member.1 = none) {rest : Json.Members}
    (h : ∀ member ∈ rest, ∀ k, pass.get? member.1 = some k → ∀ s,
      Alike (k.enrich enrich ⟨o, table, members, member.2, .input⟩ s)
        (k.enrich enrich (Node.pruned ⟨o, table, members, member.2, .input⟩ siblings member.1) s))
    (s : Reading) : Alike (rest.foldlM (enrichMember enrich o table members pass) s)
      ((pruneMembers siblings rest).foldlM
        (enrichMember enrich o table (pruneMembers siblings members) pass) s) := by
  induction rest generalizing s with
  | nil => exact .ok rfl
  | cons member rest ih =>
    have hrest := ih fun other ho => h other (.tail _ ho)
    rw [pruneMembers_cons, List.foldlM_cons, enrichMember]
    cases hd : dropped member with
    | true =>
      rw [hdropped member hd]
      exact hrest s
    | false =>
      rw [if_neg (by simp), List.foldlM_cons, enrichMember]
      cases hget : pass.get? member.1 with
      | none => exact hrest s
      | some k => exact (h member (by simp) k hget s).bind fun s => hrest s

theorem alike_enrichAt (hs : table.Standard) {schema : Json} (hfree : schema.lacks "$ref" = true)
    (hkeep : KeepsTriggers table schema) (fuel : Nat) (s : Reading) :
    Alike (enrichAt o table fuel schema s) (enrichAt o table fuel (prune siblings schema) s) := by
  induction fuel generalizing schema s with
  | zero => exact .error trivial
  | succ fuel ih =>
    cases schema with
    | object members =>
      rw [prune_object siblings (reference?_of_lacks hfree)]
      have passes : ∀ pass ∈ table, ∀ s,
          Alike (members.foldlM (enrichMember (enrichAt o table fuel) o table members pass) s)
            ((pruneMembers siblings members).foldlM (enrichMember (enrichAt o table fuel) o table
              (pruneMembers siblings members) pass) s) := by
        intro pass hp
        refine alike_pass (fun member => get?_dropped hs hp) fun member hm k hget => ?_
        obtain ⟨hname, hk⟩ := name_of_ofName? (hs pass hp _ k hget)
        have hvalue := (Json.lacks_member hfree member hm).2
        rw [hname]
        refine alike_enrich k hk hvalue ?_ fun part hpart => ?_
        · rintro rfl triggers hv
          have hname : member.1 = "dependentRequired" := hname
          rw [hname] at hget
          have hcontains : table.contains "dependentRequired" = true :=
            List.any_eq_true.mpr ⟨pass, hp, Option.isSome_of_eq_some hget⟩
          refine hkeep members triggers .self hcontains ?_
          exact hname ▸ hv ▸ hm
        · refine ih (lacks_inside hvalue (k.parts_inside hpart)) ?_
          intro inner triggers hinner
          exact hkeep inner triggers (.inside hm hp hget hpart hinner)
      have hpasses : Alike (enrichPasses (enrichAt o table fuel) o table members table s)
          (enrichPasses (enrichAt o table fuel) o table (pruneMembers siblings members)
            (table.map id) s) := alike_foldlM passes s
      rw [List.map_id] at hpasses
      exact hpasses
    | array items =>
      rw [prune_array]
      exact .error trivial
    | _ => exact .refl _

theorem alike_meaning (hs : table.Standard) {schema : Json} (hfree : schema.lacks "$ref" = true)
    (hkeep : KeepsTriggers table schema) :
    Alike (meaning o table schema) (meaning o table (prune siblings schema)) := by
  have hfuel : schema.depth < max schema.depth (prune siblings schema).depth + 1 := by omega
  have hleft : (prune siblings schema).depth <
      max schema.depth (prune siblings schema).depth + 1 := by omega
  rw [← interpret_fuel o table hfuel, ← interpret_fuel o table hleft]
  exact alike_interpret (alike_enrichAt hs hfree hkeep _) o

end Whole

theorem compile_alike [Pattern.Engines] {o : Options} {table : Table} {schema other : Json}
    (h : Alike (meaning o table schema) (meaning o table other)) :
    ((∃ p, compile other table o = .ok p) ↔ ∃ q, compile schema table o = .ok q) ∧
    ∀ p q, compile other table o = .ok p → compile schema table o = .ok q →
      ∀ json : Option Json, p.evaluate json = q.evaluate json := by
  refine ⟨⟨?_, ?_⟩, ?_⟩
  · rintro ⟨p, hp⟩
    obtain ⟨m, hm, -⟩ := compile_ok hp
    exact compile_of_meaning ((h.ok_iff m).mpr hm)
  · rintro ⟨q, hq⟩
    obtain ⟨m, hm, -⟩ := compile_ok hq
    exact compile_of_meaning ((h.ok_iff m).mp hm)
  · intro p q hp hq json
    obtain ⟨m, hm, hmp⟩ := compile_ok hp
    obtain ⟨m', hm', hmq⟩ := compile_ok hq
    cases hm'.symm.trans ((h.ok_iff m).mpr hm)
    rw [hmp.evaluate, hmq.evaluate]

/-- A schema without references builds with a resolver if and only if it builds without one, and to
a predicate with the same verdicts, if no trigger of `dependentRequired` has the name of a store. -/
theorem build_without_references [Pattern.Engines] {table : Table}
    (ht : table = .draft6 ∨ table = .draft2020)
    (o : Options) (r : Resolver) {schema : Json} (hfree : schema.lacks "$ref" = true)
    (hkeep : KeepsTriggers table schema) :
    ((∃ p, Builder.build ⟨o, table, some r⟩ schema = .ok p) ↔
      ∃ q, Builder.build ⟨o, table, none⟩ schema = .ok q) ∧
    ∀ p q, Builder.build ⟨o, table, some r⟩ schema = .ok p →
      Builder.build ⟨o, table, none⟩ schema = .ok q →
      ∀ json : Option Json, p.evaluate json = q.evaluate json := by
  have hpruned : Builder.build ⟨o, table, some r⟩ schema =
      compile (prune r.siblings schema) table o := by
    have hprepare : Builder.prepare ⟨o, table, some r⟩ schema = .ok (prune r.siblings schema) := by
      simp only [Builder.prepare, inline_of_lacks r hfree]
    rw [Builder.build, hprepare]
    rfl
  rw [hpruned]
  exact compile_alike (alike_meaning (standard_of_draft ht) hfree hkeep)

/-- A store is left out beside a trigger and below a property that is named like a store. -/
theorem stores_left_out_unnoticed :
    let schema : Json := .object [("$defs", .object [("a", .bool false)]),
      ("dependentRequired", .object [("a", .array [.string "b"])]),
      ("properties", .object [("$defs", .object [("definitions", .null)])])]
    let r : Resolver := { siblings := true }
    schema.lacks "$ref" = true ∧ KeepsTriggers .draft2020 schema ∧ prune true schema ≠ schema ∧
      ∃ p q, Builder.build ⟨{}, .draft2020, some r⟩ schema = .ok p ∧
        Builder.build ⟨{}, .draft2020, none⟩ schema = .ok q ∧
        ∀ json : Option Json, p.evaluate json = q.evaluate json := by
  intro schema r
  have hfree : schema.lacks "$ref" = true := by decide
  have hkeep : KeepsTriggers .draft2020 schema := by
    have hs : Table.Standard .draft2020 := standard_of_draft (.inr rfl)
    apply keepsTriggers_object hs
    · simp [storeKeywords]
    · simp only [List.forall_mem_cons]
      refine ⟨?_, ?_, ?_, by simp⟩
      · intro k hk
        cases hk
      · intro k hk part hp
        cases hk
        cases hp
      · intro k hk part hp
        cases hk
        cases List.mem_singleton.mp hp
        apply keepsTriggers_object hs
        · simp
        · intro member hm k hk
          cases List.mem_singleton.mp hm
          cases hk
  have hp : Builder.build ⟨{}, .draft2020, some r⟩ schema = .ok _ := rfl
  have hq : Builder.build ⟨{}, .draft2020, none⟩ schema = .ok _ := rfl
  refine ⟨hfree, hkeep, by decide, _, _, hp, hq, ?_⟩
  exact (build_without_references (.inr rfl) {} r hfree hkeep).2 _ _ hp hq

/-- A trigger that is named like a store is forgotten, with what it asks for. -/
theorem trigger_left_out :
    let schema : Json :=
      .object [("dependentRequired", .object [("definitions", .array [.string "x"])])]
    let value : Json := .object [("definitions", .number (.natural 1))]
    schema.lacks "$ref" = true ∧
      ∃ p q, Builder.build ⟨{}, .draft2020, some {}⟩ schema = .ok p ∧
        Builder.build ⟨{}, .draft2020, none⟩ schema = .ok q ∧
        p.isValid value = true ∧ q.isValid value = false :=
  ⟨by decide, _, _, rfl, rfl, by decide, by decide⟩

end SchemaLogic
