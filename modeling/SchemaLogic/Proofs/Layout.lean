import SchemaLogic.Proofs.Rearrangement

/-! # Verdicts in other passes

Tables that apply the same keywords in other passes give the same verdicts. A value shows the order
only where `properties` counts on a member that no keyword of the tables asks for, and there it
shows how the schema of that member takes the missing value. -/
namespace SchemaLogic

/-- Two readings of a schema are met by the same values. -/
def MetAlike (f g : Enrich) (schema : Json) : Prop :=
  ∀ t t', f schema {} = .ok t → g schema {} = .ok t' → ∀ v, t.Met v ↔ t'.Met v

open Classical in
noncomputable def Enrich.only (f : Enrich) (sort : Json → Prop) : Enrich := fun schema s =>
  if sort schema then f schema s else .error (.invalidSchema schema)

open Classical in
noncomputable def acceptedBoth (f g : Enrich) : Accepts
  | .bool b, _ => b
  | schema, v => decide (∀ t, f schema {} = .ok t ∨ g schema {} = .ok t → t.Met v)

section Both

variable {f g : Enrich} {o : Options} {sort : Json → Prop}

theorem only_of_sort {schema : Json} (h : sort schema) (s : Reading) :
    f.only sort schema s = f schema s := if_pos h

theorem only_ok {schema : Json} {s t : Reading} (h : f.only sort schema s = .ok t) :
    sort schema ∧ f schema s = .ok t := by
  unfold Enrich.only at h
  split at h
  · next hs => exact ⟨hs, h⟩
  · cases h

theorem merges_only (h : ∀ sub, Merges o (f sub)) (sub : Json) : Merges o (f.only sort sub) := by
  by_cases hs : sort sub
  · rw [show f.only sort sub = f sub from funext (only_of_sort hs)]
    exact h sub
  · exact .inl ⟨.invalidSchema sub, fun s => if_neg hs⟩

theorem acceptedBoth_comm (f g : Enrich) : acceptedBoth f g = acceptedBoth g f := by
  funext schema v
  cases schema <;> simp only [acceptedBoth, decide_eq_decide, or_comm]

open Classical in
theorem judges_both (separates : ∀ v, o.separates v = true) (merges : ∀ sub, Merges o (f sub))
    (bool : ∀ b t, f (.bool b) {} = .ok t → ∀ v, t.Met v ↔ b = true)
    (alike : ∀ schema, MetAlike f g schema) : f.Judges o (acceptedBoth f g) := by
  refine judges_of_met separates merges (fun _ _ => rfl) fun schema t ht v => ?_
  cases schema with
  | bool b => exact bool b t ht v
  | _ =>
    refine Iff.trans ⟨fun hv u hu => ?_, fun hall => hall t (.inl ht)⟩ decide_eq_true_iff.symm
    rcases hu with hu | hu
    · exact Except.ok.inj (ht.symm.trans hu) ▸ hv
    · exact (alike _ t u ht hu v).mp hv

theorem MetAlike.interpret {schema : Json} (h : MetAlike f g schema)
    (separates : ∀ v, o.separates v = true) {m m' : Meaning (Option Json)}
    (hm : f.interpret o schema = .ok m) (hm' : g.interpret o schema = .ok m') (v : Json) :
    m.holds (some v) = m'.holds (some v) := by
  rcases interpret_cases hm with ⟨b, rfl, hb⟩ | ⟨members, t, rfl, ht, rfl⟩
  · cases b <;> cases hm <;> cases hm' <;> rfl
  · obtain ⟨t', ht', hm'⟩ := bind_eq_ok.mp hm'
    cases hm'
    rw [Bool.eq_iff_iff, Reading.holds_finalize (separates v), Reading.holds_finalize (separates v)]
    exact h t t' ht ht' v

end Both

section Layout

variable [Pattern.Engines] {o : Options} {table other : Table}

/-! ## One keyword -/

theorem Keyword.holds_layout (h : ∀ name, table.contains name = other.contains name) (k : Keyword)
    (accepts : Accepts) (members : Json.Members) (value v : Json) :
    k.holds accepts ⟨o, table, members, value⟩ v =
      k.holds accepts ⟨o, other, members, value⟩ v := by
  have known (name : String) : (Rule.mk o table members value).known? name =
      (Rule.mk o other members value).known? name := by
    simp only [Rule.known?, h]
    rfl
  cases k with
  | items | contains => simp only [holds, known]
  | _ => rfl

/-- A keyword is met by the same values under both tables, if the schemas that it finds are and the
members are there that `properties` counts on. -/
theorem keyword_alike (separates : ∀ v, o.separates v = true)
    (same : ∀ name, table.contains name = other.contains name) {fuel : Nat} {k : Keyword}
    {members : Json.Members} {value v : Json}
    (h : ∀ part ∈ k.parts value, MetAlike (enrichAt o table fuel) (enrichAt o other fuel) part)
    (required : k = .properties → HasRequired members v) {u u' : Reading}
    (hu : k.enrich (enrichAt o table fuel) ⟨o, table, members, value, .input⟩ {} = .ok u)
    (hu' : k.enrich (enrichAt o other fuel) ⟨o, other, members, value, .input⟩ {} = .ok u') :
    u.Met v ↔ u'.Met v := by
  -- Outside the parts nothing is known, so nothing is read there.
  let sort := MetAlike (enrichAt o table fuel) (enrichAt o other fuel)
  let f := (enrichAt o table fuel).only sort
  let g := (enrichAt o other fuel).only sort
  have alike (schema : Json) : MetAlike f g schema := fun t t' ht ht' =>
    (only_ok ht).1 t t' (only_ok ht).2 (only_ok ht').2
  have judges : f.Judges o (acceptedBoth f g) :=
    judges_both separates (merges_only (merges_enrichAt o table fuel))
      (fun b t ht => enrichAt_bool_met (only_ok ht).2) alike
  have judges' : g.Judges o (acceptedBoth f g) := by
    rw [acceptedBoth_comm]
    exact judges_both separates (merges_only (merges_enrichAt o other fuel))
      (fun b t ht => enrichAt_bool_met (only_ok ht).2)
      fun schema t t' ht ht' v => (alike schema t' t ht' ht v).symm
  rw [enrich_congr (g := f) k fun part hpart s => (only_of_sort (h part hpart) s).symm] at hu
  rw [enrich_congr (g := g) k fun part hpart s => (only_of_sort (h part hpart) s).symm] at hu'
  rw [enrich_met judges k hu v required, enrich_met judges' k hu' v required]
  exact Bool.eq_iff_iff.mp (k.holds_layout same _ members value v)

theorem properties_alike {f g : Enrich} (separates : ∀ v, o.separates v = true)
    {members : Json.Members} {value : Json}
    (h : ∀ entry ∈ value.fields, MetAlike f g entry.2)
    (gap : ∀ entry ∈ value.fields, entry.1 ∈ ((members.lookup "required").getD .null).texts →
      ∀ m m', f.interpret o entry.2 = .ok m → g.interpret o entry.2 = .ok m' →
        m.holds none = m'.holds none) {u u' : Reading}
    (hu : Keyword.properties.enrich f ⟨o, table, members, value, .input⟩ {} = .ok u)
    (hu' : Keyword.properties.enrich g ⟨o, other, members, value, .input⟩ {} = .ok u') (v : Json) :
    u.Met v ↔ u'.Met v := by
  let n : Node := ⟨o, table, members, value, .input⟩
  obtain ⟨ms, hms, hu⟩ := bind_eq_ok.mp hu
  obtain ⟨ms', hms', hu'⟩ := bind_eq_ok.mp hu'
  cases hu
  cases hu'
  have verdicts : ms.map (·.holds (some v)) = ms'.map (·.holds (some v)) := by
    obtain ⟨properties, hp, hms⟩ := bind_eq_ok.mp hms
    obtain ⟨properties', hp', hms'⟩ := bind_eq_ok.mp hms'
    obtain rfl : properties = properties' := Except.ok.inj (hp.symm.trans hp')
    have hvalue : value.fields = properties := by
      rw [show value = .object properties from expectObject_ok hp]
      rfl
    rw [hvalue] at h gap
    refine map_mapM_congr hms hms' fun entry he m m' hm hm' => ?_
    obtain ⟨a, ha, hm⟩ := bind_eq_ok.mp hm
    obtain ⟨a', ha', hm'⟩ := bind_eq_ok.mp hm'
    cases hm
    cases hm'
    change Meaning.holds (if n.requiredNames.contains entry.1 = true then _ else _) (some v) =
      Meaning.holds (if n.requiredNames.contains entry.1 = true then _ else _) (some v)
    have present (x : Json) : a.holds (some x) = a'.holds (some x) :=
      (h entry he).interpret separates ha ha' x
    split
    · next hreq =>
      rw [Meaning.holds_property, Meaning.holds_property]
      cases (Instance.ofOption (some v)).entries?.bind (·.get? entry.1) with
      | some x => exact present x
      | none => exact gap entry he (by simpa [requiredNames_eq] using hreq) a a' ha ha'
    · have guarded (a : Meaning (Option Json)) :
          (Meaning.disj [.negate (n.owns entry.1), a.property entry.1]).holds (some v) =
            ((Instance.ofOption (some v)).entries?.bind (·.get? entry.1)).all
              (fun x => a.holds (some x)) := by
        simp only [Meaning.holds_disj, List.any_cons, List.any_nil, Meaning.holds_negate,
          Node.holds_owns_entry, Meaning.holds_property, Bool.or_false]
        cases (Instance.ofOption (some v)).entries?.bind (·.get? entry.1) <;> simp
      refine (guarded a).trans (Eq.trans ?_ (guarded a').symm)
      simp only [present]
  have all : ms.all (·.holds (some v)) = ms'.all (·.holds (some v)) := by
    simpa [Function.comp_def] using congrArg (·.all id) verdicts
  rw [Reading.met_pushAll, Reading.met_pushAll, ← List.all_eq_true, ← List.all_eq_true, all]

theorem not_met_of_lacks (hs : table.Standard) (hc : table.contains "required" = true)
    {v : Json} (hv : o.separates v = true) {fuel : Nat} {members : Json.Members}
    (hlacks : ¬HasRequired members v) {t : Reading}
    (ht : enrichAt o table (fuel + 1) (.object members) {} = .ok t) : ¬t.Met v := by
  intro hmet
  obtain ⟨hok, hiff⟩ := object_splits (Reading.met_empty v) (splits_met hv) ht
  refine hlacks fun value hvalue => ?_
  have knows : table.Knows "required" .required := hs.knows rfl hc
  obtain ⟨u, hu⟩ := hok _ (Json.mem_of_lookup hvalue) _ knows
  have met := hiff.mp hmet _ (Json.mem_of_lookup hvalue) _ knows u hu
  let n : Node := ⟨o, table, members, value, .input⟩
  have listed : Says .objects n.requiredDemands (Keyword.required.holds (fun _ _ => true) n.rule) :=
    says_required n
  exact required_holds.mp ((Says.met (k := .required) listed hu v).mp met)

/-! ## Whole schemas -/

/-- Wherever `properties` counts on a member that no keyword of the table asks for, the tables judge
alike that it is missing. -/
def Steady (o : Options) (table other : Table) (schema : Json) : Prop :=
  table.contains "required" = false → ∀ members, Subschema table schema (.object members) →
    ∀ member ∈ members, table.Knows member.1 .properties → ∀ entry ∈ member.2.fields,
      entry.1 ∈ ((members.lookup "required").getD .null).texts → MissedAlike o table other entry.2

theorem steady_object {members : Json.Members}
    (here : table.contains "required" = false → ∀ member ∈ members,
      table.Knows member.1 .properties → ∀ entry ∈ member.2.fields,
        entry.1 ∈ ((members.lookup "required").getD .null).texts →
          MissedAlike o table other entry.2)
    (inside : ∀ member ∈ members, ∀ k, table.Knows member.1 k → ∀ part ∈ k.parts member.2,
      Steady o table other part) : Steady o table other (.object members) := by
  intro hc inner hinner
  cases hinner with
  | self => exact here hc
  | inside hmember hp hget hpart hrest =>
    exact inside _ hmember _ ⟨_, hp, hget⟩ _ hpart hc inner hrest

theorem steady_of_lacks {schema : Json} (h : schema.lacks "required" = true) :
    Steady o table other schema := by
  intro _ members hsub member _ _ entry _ hname
  have absent : members.lookup "required" = none := by
    rw [List.lookup_eq_none_iff]
    intro entry he
    have differs := (Json.lacks_member (hsub.lacks h) _ he).1
    simpa using Ne.symm differs
  rw [absent] at hname
  cases hname

/-- Tables that know `required` where they know `properties` judge all values alike. -/
theorem steady_of_contains (hs : table.Standard)
    (h : table.contains "properties" = true → table.contains "required" = true) (schema : Json) :
    Steady o table other schema := by
  intro hc members _ member _ hk
  obtain ⟨hname, hcontains⟩ := hs.knows_iff.mp hk
  rw [(name_of_ofName? hname).1] at hcontains
  rw [h hcontains] at hc
  cases hc

theorem metAlike_enrichAt (hr : table.Rearranges other) (separates : ∀ v, o.separates v = true)
    {schema : Json} (hs : Steady o table other schema) {fuel : Nat} (hd : schema.depth < fuel) :
    MetAlike (enrichAt o table fuel) (enrichAt o other fuel) schema := by
  -- By induction on the fuel: the schemas inside a schema object have less of it.
  induction fuel generalizing schema with
  | zero => omega
  | succ fuel ih =>
    intro t t' ht ht' v
    cases schema with
    | object members =>
      have less {member : String × Json} (hm : member ∈ members) {k : Keyword} {part : Json}
          (hpart : part ∈ k.parts member.2) : part.depth < fuel := by
        have := Json.depth_member hm
        have := (Keyword.parts_inside hpart).depth_le
        omega
      have inner {member : String × Json} (hm : member ∈ members) {k : Keyword}
          (hk : table.Knows member.1 k) : ∀ part ∈ k.parts member.2,
            MetAlike (enrichAt o table fuel) (enrichAt o other fuel) part := by
        intro part hpart
        obtain ⟨pass, hp, hget⟩ := hk
        exact ih (fun hc inner hinner => hs hc inner (.inside hm hp hget hpart hinner))
          (less hm hpart)
      have keywords (h : HasRequired members v ∨ table.contains "required" = false) :
          t.Met v ↔ t'.Met v := by
        refine object_alike (Reading.met_empty v) hr (fun _ => splits_met (separates v))
          (fun member hm k hk u u' hu hu' => ?_) ht ht'
        rcases h with hall | hc
        · exact keyword_alike separates hr.same (inner hm hk) (fun _ => hall) hu hu'
        · by_cases hprop : k = .properties
          · subst hprop
            have described (entry : String × Json) (he : entry ∈ member.2.fields) :
                entry.2 ∈ Keyword.properties.parts member.2 := List.mem_map_of_mem he
            refine properties_alike separates (fun entry he => inner hm hk _ (described entry he))
              (fun entry he hname m m' hint hint' => ?_) hu hu' v
            rw [interpret_fuel o _ (less hm (described entry he))] at hint hint'
            obtain ⟨p, hp⟩ := compile_of_meaning hint
            obtain ⟨q, hq⟩ := compile_of_meaning hint'
            have alike := hs hc members .self member hm hk entry he hname p q hp hq
            obtain ⟨a, ha, hp⟩ := compile_ok hp
            obtain ⟨b, hb, hq⟩ := compile_ok hq
            obtain rfl : m = a := Except.ok.inj (hint.symm.trans ha)
            obtain rfl : m' = b := Except.ok.inj (hint'.symm.trans hb)
            rwa [hp.evaluate, hq.evaluate] at alike
          · exact keyword_alike separates hr.same (inner hm hk) (fun h => absurd h hprop) hu hu'
      -- Without a required member a value is refused by both tables, if they know `required`.
      by_cases hall : HasRequired members v
      · exact keywords (.inl hall)
      · cases hc : table.contains "required" with
        | true =>
          exact iff_of_false (not_met_of_lacks hr.left hc (separates v) hall ht)
            (not_met_of_lacks hr.right (hr.same _ ▸ hc) (separates v) hall ht')
        | false => exact keywords (.inr hc)
    | bool b => rw [enrichAt_bool_met ht, enrichAt_bool_met ht']
    | _ => cases ht

/-- Tables that apply the same keywords in other passes compile the same schemas. The predicates
agree on every value if they agree on what it means that a member is missing which is counted on
only, and on the missing value if no negation folds away under one of the tables where nothing else
is asked for. -/
theorem layout_unnoticed (hr : table.Rearranges other) (ho : o.noArrayObject = true)
    (schema : Json) :
    ((∃ p, compile schema table o = .ok p) ↔ ∃ q, compile schema other o = .ok q) ∧
    ∀ p q, compile schema table o = .ok p → compile schema other o = .ok q →
      (Steady o table other schema → ∀ v, p.isValid v = q.isValid v) ∧
      (Anchored o table other schema → p.evaluate none = q.evaluate none) := by
  refine ⟨?_, fun p q hp hq => ⟨fun hs v => ?_, fun ha => ha.missedAlike hr p q hp hq⟩⟩
  · rw [compile_ok_iff, compile_ok_iff]
    exact ⟨soundThroughout_layout hr, soundThroughout_layout hr.symm⟩
  · have separates (v : Json) : o.separates v = true := by simp [Options.separates, ho]
    obtain ⟨m, hm, hc⟩ := compile_ok hp
    obtain ⟨m', hm', hc'⟩ := compile_ok hq
    calc p.isValid v
      _ = m.holds (some v) := hc.evaluate (some v)
      _ = m'.holds (some v) := (metAlike_enrichAt hr separates hs (Nat.lt_succ_self _)).interpret
        separates hm hm' v
      _ = q.isValid v := (hc'.evaluate (some v)).symm

end Layout

/-! ## Tables pass by pass -/

theorem lookup_filter_ne {β : Type} {name gone : String} (h : name ≠ gone)
    (l : List (String × β)) : (l.filter (·.1 != gone)).lookup name = l.lookup name := by
  induction l with
  | nil => rfl
  | cons entry l ih =>
    obtain ⟨key, value⟩ := entry
    rw [List.filter_cons]
    by_cases hkey : key = gone
    · have skip : (name == key) = false := by simp [hkey, h]
      rw [if_neg (by simp [hkey]), ih, List.lookup_cons, skip]
    · rw [if_pos (by simp [hkey]), List.lookup_cons, List.lookup_cons, ih]

theorem Table.contains_withPass (table : Table) (ks : List Keyword) (name : String) :
    (table.withPass ks).contains name = (table.contains name || ks.any (·.name == name)) := by
  have insert (pass : Pass) (k : Keyword) :
      ((pass.insert k).get? name).isSome = ((pass.get? name).isSome || k.name == name) := by
    rw [Pass.insert, Pass.get?, Pass.get?, List.lookup_cons]
    by_cases hk : name = k.name
    · simp [hk]
    · have other : (name == k.name) = false := by simp [hk]
      have other' : (k.name == name) = false := by simp [Ne.symm hk]
      rw [other, other', Bool.or_false, lookup_filter_ne hk]
  have inserts (pass : Pass) : ((ks.foldl Pass.insert pass).get? name).isSome =
      ((pass.get? name).isSome || ks.any (·.name == name)) := by
    induction ks generalizing pass with
    | nil => simp
    | cons k ks ih => rw [List.foldl_cons, ih, insert, List.any_cons, Bool.or_assoc]
  rw [contains, withPass, List.any_append, List.any_cons, List.any_nil, Bool.or_false, inserts]
  rfl

theorem rearranges_swap {table : Table} (hs : table.Standard) {ks ls : List Keyword}
    (hk : ∀ k ∈ ks, ∀ c, k ≠ .custom c) (hl : ∀ k ∈ ls, ∀ c, k ≠ .custom c) :
    ((table.withPass ks).withPass ls).Rearranges ((table.withPass ls).withPass ks) where
  left := standard_withPass (standard_withPass hs hk) hl
  right := standard_withPass (standard_withPass hs hl) hk
  same name := by simp only [Table.contains_withPass, Bool.or_right_comm]

/-- Branches that are read before the types are declared do not see them. It does not show, although
the schema does nothing but negate, and a member is counted on that no keyword asks for. -/
theorem branches_before_types_unnoticed :
    let late := (Table.empty.withPass [.type, .minItems, .properties]).withPass [.anyOf, .not]
    let early := (Table.empty.withPass [.anyOf, .not]).withPass [.type, .minItems, .properties]
    let text : Json := .object [("not", .object [("type", .string "string")])]
    let counting : Json := .object [("properties", .object [("a", text)]),
      ("required", .array [.string "a"])]
    let body : Json := .object [
      ("anyOf", .array [.object [("minItems", .number (.natural 1))], counting]),
      ("type", .array [.string "array", .string "object"])]
    let schema : Json := .object [("not", body)]
    late.Rearranges early ∧ Steady .strict late early schema ∧
      Anchored .strict late early schema ∧
      ∃ p q, compile schema late .strict = .ok p ∧ compile schema early .strict = .ok q ∧
        p.isValid (.object []) = q.isValid (.object []) ∧ q.isValid (.object []) = false ∧
        p.evaluate none = q.evaluate none ∧ q.evaluate none = true := by
  intro late early text counting body schema
  have hr : late.Rearranges early := rearranges_swap standard_empty (by simp) (by simp)
  let keeps (table : Table) (inner : Json) : Bool :=
    (compile inner table .strict).toOption.all (·.root.const? != some false)
  have folds {inner : Json} (hl : keeps late inner = true) (he : keeps early inner = true) :
      FoldsAlike .strict late early inner := by
    intro p q hp hq
    refine iff_of_false (fun hroot => ?_) fun hroot => ?_
    · simp [keeps, hp, hroot, Except.toOption, Expr.const?] at hl
    · simp [keeps, hq, hroot, Except.toOption, Expr.const?] at he
  have anchored : Anchored .strict late early schema := by
    have kept : FoldsAlike .strict late early body := folds (by decide +kernel) (by decide +kernel)
    refine anchored_negation hr.left kept (.object (fun member hm hk => ?_)
      fun member hm k hk hplace part hpart => ?_)
    · rcases List.mem_pair.mp hm with rfl | rfl <;> cases hr.left.eq_of_knows hk rfl
    · rcases List.mem_pair.mp hm with rfl | rfl <;> cases hr.left.eq_of_knows hk rfl
      · rcases List.mem_pair.mp hpart with rfl | rfl <;> exact anchored_of_flat hr.left rfl
      · cases hplace
  have steady : Steady .strict late early schema := by
    have counted : Steady .strict late early counting := by
      refine steady_object (fun _ member hm hk entry he _ => ?_) fun member hm k hk part hpart => ?_
      · rcases List.mem_pair.mp hm with rfl | rfl <;> cases hr.left.eq_of_knows hk rfl
        cases List.mem_singleton.mp he
        have kept : FoldsAlike .strict late early (.object [("type", .string "string")]) :=
          folds (by decide +kernel) (by decide +kernel)
        exact (anchored_negation hr.left kept (anchored_of_flat hr.left rfl)).missedAlike hr
      · rcases List.mem_pair.mp hm with rfl | rfl <;> cases hr.left.eq_of_knows hk rfl
        · cases List.mem_singleton.mp hpart
          exact steady_of_lacks rfl
        · cases hpart
    refine steady_object (fun _ member hm hk => ?_) fun member hm k hk part hpart => ?_
    · cases List.mem_singleton.mp hm
      cases hr.left.eq_of_knows hk rfl
    · cases List.mem_singleton.mp hm
      cases hr.left.eq_of_knows hk rfl
      cases List.mem_singleton.mp hpart
      refine steady_object (fun _ member hm hk => ?_) fun member hm k hk part hpart => ?_
      · rcases List.mem_pair.mp hm with rfl | rfl <;> cases hr.left.eq_of_knows hk rfl
      · rcases List.mem_pair.mp hm with rfl | rfl <;> cases hr.left.eq_of_knows hk rfl
        · rcases List.mem_pair.mp hpart with rfl | rfl
          · exact steady_of_lacks rfl
          · exact counted
        · cases hpart
  have h : compile schema late .strict = .ok _ := rfl
  have h' : compile schema early .strict = .ok _ := rfl
  obtain ⟨values, missing⟩ := (layout_unnoticed hr rfl schema).2 _ _ h h'
  exact ⟨hr, steady, anchored, _, _, h, h', values steady _, by decide +kernel, missing anchored,
    by decide +kernel⟩

/-- A branch that sees the declared types folds to `false`, its negation to `true`, and nothing is
left to ask for. Where `properties` counts on a `required` that the table does not know, a value
shows it too. -/
theorem folded_negation_noticed :
    let late := (Table.empty.withPass [.type, .properties]).withPass [.anyOf, .not]
    let early := (Table.empty.withPass [.anyOf, .not]).withPass [.type, .properties]
    let schema : Json := .object [("not", .object [
      ("anyOf", .array [.object [("type", .string "number")]]), ("type", .string "string")])]
    let around : Json := .object [("properties", .object [("a", schema)]),
      ("required", .array [.string "a"])]
    late.Rearranges early ∧
      (∃ p q, compile schema late .strict = .ok p ∧ compile schema early .strict = .ok q ∧
        p.evaluate none = false ∧ q.evaluate none = true) ∧
      ∃ p q, compile around late .strict = .ok p ∧ compile around early .strict = .ok q ∧
        p.isValid (.object []) = false ∧ q.isValid (.object []) = true := by
  intro late early schema around
  have hr : late.Rearranges early :=
    rearranges_swap standard_empty (by simp) (by simp)
  have h : compile schema late .strict = .ok _ := rfl
  have h' : compile schema early .strict = .ok _ := rfl
  have g : compile around late .strict = .ok _ := rfl
  have g' : compile around early .strict = .ok _ := rfl
  exact ⟨hr, ⟨_, _, h, h', by decide +kernel, by decide +kernel⟩, _, _, g, g',
    by decide +kernel, by decide +kernel⟩

end SchemaLogic
