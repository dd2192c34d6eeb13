import SchemaLogic.Proofs.Layout

/-! # Members that a table does not know

A member of a schema object whose name the table does not contain is not read as a keyword. Still,
keywords look at their siblings, and not all of them ask the table first. The names that are read so
are exactly those that have an effect without being known. -/
namespace SchemaLogic

def Json.Members.without (members : Json.Members) (name : String) : Json.Members :=
  members.filter (·.1 != name)

/-- The siblings that a keyword reads whether or not the table knows them. -/
def Keyword.peeks : Keyword → List String
  | .properties => ["required"]
  | .additionalProperties => ["properties", "patternProperties"]
  | .additionalItems => ["items"]
  | .minContains | .maxContains => ["contains"]
  | _ => []

def Table.Peeks (table : Table) (name : String) : Prop :=
  ∃ other k, table.Knows other k ∧ name ∈ k.peeks

/-- Members with a name have no say in whether a schema object compiles, nor in any verdict on a
value or on the missing one. -/
def Unheeded [Pattern.Engines] (o : Options) (table : Table) (name : String) : Prop :=
  ∀ members : Json.Members,
    ((∃ p, compile (.object members) table o = .ok p) ↔
      ∃ q, compile (.object (members.without name)) table o = .ok q) ∧
    ∀ p q, compile (.object members) table o = .ok p →
      compile (.object (members.without name)) table o = .ok q →
      ∀ json : Option Json, p.evaluate json = q.evaluate json

section Unread

variable {o : Options} {table : Table} {gone : String}

theorem Json.depth_without (members : Json.Members) (name : String) :
    (Json.object (members.without name)).depth ≤ (Json.object members).depth := by
  have le : Json.depthMembers (members.without name) ≤ Json.depthMembers members := by
    induction members with
    | nil => exact Nat.le_refl _
    | cons member rest ih =>
      obtain ⟨key, value⟩ := member
      rw [Json.Members.without, List.filter_cons]
      rw [Json.Members.without] at ih
      split
      · simp only [Json.depthMembers]
        omega
      · simp only [Json.depthMembers]
        omega
  simp only [Json.depth]
  omega

variable [Pattern.Engines]

/-- A keyword that does not peek at a member asks the table before it reads it. -/
theorem enrich_without (hc : table.contains gone = false) {enrich : Enrich} {k : Keyword}
    (hk : gone ∉ k.peeks) (hb : ∀ c, k ≠ .custom c) (members : Json.Members) (value : Json)
    (s : Reading) : k.enrich enrich ⟨o, table, members.without gone, value, .input⟩ s =
      k.enrich enrich ⟨o, table, members, value, .input⟩ s := by
  have sibling {name : String} (hname : name ≠ gone) :
      Node.sibling? ⟨o, table, members.without gone, value, .input⟩ name =
        Node.sibling? ⟨o, table, members, value, .input⟩ name := lookup_filter_ne hname members
  have asked {name : String} (hname : table.contains name = true) : name ≠ gone := by
    rintro rfl
    rw [hc] at hname
    cases hname
  cases k with
  | custom c => exact absurd rfl (hb c)
  | items =>
    have covered : Node.prefixLength ⟨o, table, members.without gone, value, .input⟩ =
        Node.prefixLength ⟨o, table, members, value, .input⟩ := by
      rw [Node.prefixLength, Node.prefixLength]
      split
      · next h => rw [sibling (asked h)]
      · rfl
    simp only [Keyword.enrich, Keyword.demands, Node.itemsDemands, covered]
  | contains =>
    have bound (keyword : String) :
        Node.containsBound ⟨o, table, members.without gone, value, .input⟩ keyword =
          Node.containsBound ⟨o, table, members, value, .input⟩ keyword := by
      rw [Node.containsBound, Node.containsBound]
      split
      · next h => rw [sibling (asked h)]
      · rfl
    simp only [Keyword.enrich, Keyword.demands, Node.containsDemands, bound]
  | properties =>
    have names : Node.requiredNames ⟨o, table, members.without gone, value, .input⟩ =
        Node.requiredNames ⟨o, table, members, value, .input⟩ := by
      rw [Node.requiredNames, Node.requiredNames,
        sibling (by simpa [Keyword.peeks, eq_comm] using hk)]
    simp only [Keyword.enrich, Keyword.demands, Node.propertyDemands, names]
    rfl
  | additionalProperties =>
    obtain ⟨hprops, hpatterns⟩ : "properties" ≠ gone ∧ "patternProperties" ≠ gone := by
      simpa [Keyword.peeks, eq_comm] using hk
    simp only [Keyword.enrich, Keyword.demands, Node.additionalPropertyDemands,
      Node.siblingMembers, sibling hprops, sibling hpatterns]
    rfl
  | additionalItems =>
    have hitems : "items" ≠ gone := by simpa [Keyword.peeks, eq_comm] using hk
    simp only [Keyword.enrich, Keyword.demands, Node.additionalItemsDemands, sibling hitems]
  | minContains | maxContains =>
    have hcontains : "contains" ≠ gone := by simpa [Keyword.peeks, eq_comm] using hk
    simp only [Keyword.enrich, Keyword.demands, Node.containsBoundDemands, sibling hcontains]
  | _ => rfl

theorem enrichAt_without (hs : table.Standard) (hc : table.contains gone = false)
    (hp : ¬table.Peeks gone) (fuel : Nat) (members : Json.Members) (s : Reading) :
    enrichAt o table (fuel + 1) (.object (members.without gone)) s =
      enrichAt o table (fuel + 1) (.object members) s := by
  refine foldlM_congr_left (fun pass hpass s => ?_) s
  rw [Json.Members.without, List.foldlM_filter]
  refine foldlM_congr_left (fun member hm s => ?_) s
  simp only [enrichMember]
  by_cases hg : member.1 = gone
  · have unknown : pass.get? member.1 = none := by
      rw [hg]
      simpa using List.any_eq_false.mp hc pass hpass
    rw [if_neg (by simp [hg]), unknown]
  · rw [if_pos (by simp [hg])]
    cases hget : pass.get? member.1 with
    | none => rfl
    | some k =>
      have knows : table.Knows member.1 k := ⟨pass, hpass, hget⟩
      exact enrich_without hc (fun hpeek => hp ⟨member.1, k, knows, hpeek⟩)
        (name_of_ofName? (hs.knows_iff.mp knows).1).2 members member.2 s

theorem meaning_without (hs : table.Standard) (hc : table.contains gone = false)
    (hp : ¬table.Peeks gone) (members : Json.Members) :
    meaning o table (.object (members.without gone)) = meaning o table (.object members) := by
  have depth := Json.depth_without members gone
  calc meaning o table (.object (members.without gone))
    _ = (enrichAt o table ((Json.object members).depth + 1)).interpret o
        (.object (members.without gone)) := (interpret_fuel o table (by omega)).symm
    _ = meaning o table (.object members) := by
      simp only [meaning, Enrich.interpret, enrichAt_without hs hc hp]

theorem unheeded_of_not_peeks (hs : table.Standard) (hc : table.contains gone = false)
    (hp : ¬table.Peeks gone) (o : Options) : Unheeded o table gone := by
  intro members
  have same := meaning_without (o := o) hs hc hp members
  exact compile_alike (same ▸ Alike.refl _)

end Unread

/-! ## What is peeked at shows -/

structure Sole (table : Table) (members : Json.Members) (k : Keyword) (value : Json) : Prop where
  mem : (k.name, value) ∈ members
  knows : table.Knows k.name k
  only : ∀ member ∈ members, ∀ other, table.Knows member.1 other → member.2 = value ∧ other = k

section Sole

variable {o : Options} {table : Table} {members : Json.Members} {k : Keyword} {value : Json}

theorem Table.contains_of_knows {name : String} (h : table.Knows name k) :
    table.contains name = true := by
  obtain ⟨pass, hp, hget⟩ := h
  exact List.any_eq_true.mpr ⟨pass, hp, Option.isSome_of_eq_some hget⟩

theorem sole_head (hs : table.Standard) (hk : table.Knows k.name k) (value : Json)
    {rest : Json.Members} (hrest : ∀ member ∈ rest, table.contains member.1 = false) :
    Sole table ((k.name, value) :: rest) k value where
  mem := .head _
  knows := hk
  only := by
    intro member hm k' hk'
    rcases List.mem_cons.mp hm with rfl | hm
    · exact ⟨rfl, hs.eq_of_knows hk' (hs.knows_iff.mp hk).1⟩
    · have unknown := hrest member hm
      rw [Table.contains_of_knows hk'] at unknown
      cases unknown

theorem sole_beside (hs : table.Standard) (hk : table.Knows k.name k) {gone : String}
    (hc : table.contains gone = false) (value other : Json) :
    Sole table [(k.name, value), (gone, other)] k value :=
  sole_head hs hk value (by simpa using hc)

theorem sole_alone (hs : table.Standard) (hk : table.Knows k.name k) (value : Json) :
    Sole table [(k.name, value)] k value :=
  sole_head hs hk value (by simp)

theorem without_beside (hk : table.Knows k.name k) {gone : String}
    (hc : table.contains gone = false) (value other : Json) :
    Json.Members.without [(k.name, value), (gone, other)] gone = [(k.name, value)] := by
  have kept : k.name ≠ gone := by
    intro hname
    rw [← hname, Table.contains_of_knows hk] at hc
    cases hc
  simp [Json.Members.without, kept]

variable [Pattern.Engines]

theorem Sole.compiles_iff (h : Sole table members k value) :
    (∃ p, compile (.object members) table o = .ok p) ↔ k.fits o value = true ∧
      k.legible ⟨o, table, members, value, .input⟩ = true ∧
        ∀ part ∈ k.subschemas members value, SoundThroughout o table part := by
  rw [compile_ok_iff, soundThroughout_object]
  constructor
  · intro hall
    exact hall _ h.mem k h.knows
  · intro hk member hm other hother
    obtain ⟨hvalue, rfl⟩ := h.only member hm other hother
    exact hvalue ▸ hk

theorem Sole.reading (h : Sole table members k value) {p : Predicate}
    (hp : compile (.object members) table o = .ok p) :
    ∃ u fuel, k.enrich (enrichAt o table fuel) ⟨o, table, members, value, .input⟩ {} = .ok u ∧
      (∀ v, o.separates v = true → (p.evaluate (some v) = true ↔ u.Met v)) ∧
      (p.evaluate none = true ↔ u.Open ∧ ¬u.Void) := by
  obtain ⟨m, hm, hc⟩ := compile_ok hp
  obtain ⟨t, ht, hm⟩ := bind_eq_ok.mp hm
  cases hm
  have alone {P : Reading → Prop} {u : Reading}
      (hu : k.enrich (enrichAt o table (Json.object members).depth)
        ⟨o, table, members, value, .input⟩ {} = .ok u)
      (hiff : P t ↔ ∀ member ∈ members, ∀ k, table.Knows member.1 k → ∀ u,
        k.enrich (enrichAt o table (Json.object members).depth)
          ⟨o, table, members, member.2, .input⟩ {} = .ok u → P u) : P t ↔ P u := by
    rw [hiff]
    constructor
    · intro hall
      exact hall _ h.mem k h.knows u hu
    · intro hP member hm other hother u' hu'
      obtain ⟨hvalue, rfl⟩ := h.only member hm other hother
      rw [hvalue, hu] at hu'
      cases hu'
      exact hP
  have splits {P : Reading → Prop} (hP : Additive P) :=
    object_splits hP.empty (splits_known hP) ht
  obtain ⟨u, hu⟩ := (splits additive_open).1 _ h.mem k h.knows
  refine ⟨u, _, hu, fun v hv => ?_, ?_⟩
  · rw [hc.evaluate, Reading.holds_finalize hv]
    exact alone (P := fun t => t.Met v) hu
      (object_splits (Reading.met_empty v) (splits_met hv) ht).2
  · rw [hc.evaluate, Reading.holds_none_finalize, alone hu (splits additive_open).2,
      alone hu (splits additive_void).2]

theorem Unheeded.alone {gone : String} (h : Unheeded o table gone) (hk : table.Knows k.name k)
    (hc : table.contains gone = false) (value other : Json) :
    ((∃ p, compile (.object [(k.name, value), (gone, other)]) table o = .ok p) ↔
      ∃ q, compile (.object [(k.name, value)]) table o = .ok q) ∧
    ∀ p q, compile (.object [(k.name, value), (gone, other)]) table o = .ok p →
      compile (.object [(k.name, value)]) table o = .ok q →
      ∀ json : Option Json, p.evaluate json = q.evaluate json := by
  have both := h [(k.name, value), (gone, other)]
  rwa [without_beside hk hc] at both

/-- A member is heeded if a keyword makes different readings beside it and alone. -/
theorem heeded_of_readings (hs : table.Standard) (hk : table.Knows k.name k) {gone : String}
    (hc : table.contains gone = false) (value other : Json)
    (hok : ∃ p, compile (.object [(k.name, value), (gone, other)]) table o = .ok p)
    (differ : ∀ fuel fuel' u u',
      k.enrich (enrichAt o table fuel)
        ⟨o, table, [(k.name, value), (gone, other)], value, .input⟩ {} = .ok u →
      k.enrich (enrichAt o table fuel') ⟨o, table, [(k.name, value)], value, .input⟩ {} = .ok u' →
      (∃ v, o.separates v = true ∧ ¬(u.Met v ↔ u'.Met v)) ∨
        ¬(u.Open ∧ ¬u.Void ↔ u'.Open ∧ ¬u'.Void)) : ¬Unheeded o table gone := by
  intro h
  obtain ⟨hiff, hsame⟩ := h.alone hk hc value other
  obtain ⟨p, hp⟩ := hok
  obtain ⟨q, hq⟩ := hiff.mp ⟨p, hp⟩
  obtain ⟨u, fuel, hu, hmet, hgap⟩ := (sole_beside hs hk hc value other).reading hp
  obtain ⟨u', fuel', hu', hmet', hgap'⟩ := (sole_alone hs hk value).reading hq
  rcases differ fuel fuel' u u' hu hu' with ⟨v, hv, hdiff⟩ | hdiff
  · exact hdiff (by rw [← hmet v hv, ← hmet' v hv, hsame p q hp hq])
  · exact hdiff (by rw [← hgap, ← hgap', hsame p q hp hq])

end Sole

section Peeking

variable [Pattern.Engines] {o : Options} {table : Table}

theorem heeded_required (hs : table.Standard) (hk : table.Knows "properties" .properties)
    (hc : table.contains "required" = false) : ¬Unheeded o table "required" := by
  let value : Json := .object [("a", .bool true)]
  let names : Json := .array [.string "a"]
  refine heeded_of_readings (k := .properties) hs hk hc value names ?_ ?_
  · refine ((sole_beside (k := .properties) hs hk hc value names).compiles_iff).mpr
      ⟨rfl, rfl, fun part hpart => ?_⟩
    cases List.mem_singleton.mp hpart
    exact soundThroughout_bool true
  · intro fuel fuel' u u' hu hu'
    cases hu
    cases hu'
    refine .inl ⟨.object [], by simp [Options.separates, Json.isArray], ?_⟩
    have listed : Node.requiredNames ⟨o, table, [(Keyword.properties.name, value),
        ("required", names)], value, .input⟩ = ["a"] := rfl
    have unlisted : Node.requiredNames ⟨o, table, [(Keyword.properties.name, value)], value,
        .input⟩ = [] := rfl
    have absent : (Meaning.property "a" (.look Instance.isPresent)).holds (some (.object [])) =
        false := rfl
    simp [Reading.met_pushAll, Reading.met_empty, Keyword.bucket, Bucket.covers, listed, unlisted,
      absent, Node.holds_owns]

theorem heeded_properties (hs : table.Standard)
    (hk : table.Knows "additionalProperties" .additionalProperties)
    (hc : table.contains "properties" = false) : ¬Unheeded o table "properties" := by
  let named : Json := .object [("a", .bool true)]
  refine heeded_of_readings (k := .additionalProperties) hs hk hc (.bool false) named ?_ ?_
  · have sole := sole_beside (k := .additionalProperties) hs hk hc (.bool false) named
    refine sole.compiles_iff.mpr ⟨rfl, rfl, fun part hpart => ?_⟩
    cases List.mem_singleton.mp hpart
    exact soundThroughout_bool false
  · intro fuel fuel' u u' hu hu'
    cases hu
    cases hu'
    refine .inl ⟨.object [("a", .null)], by simp [Options.separates, Json.isArray], ?_⟩
    have beside : Node.siblingMembers ⟨o, table, [(Keyword.additionalProperties.name, .bool false),
        ("properties", named)], .bool false, .input⟩ "properties" = [("a", .bool true)] := rfl
    have alone : Node.siblingMembers ⟨o, table, [(Keyword.additionalProperties.name, .bool false)],
        .bool false, .input⟩ "properties" = [] := rfl
    have refused (x : Option Json) : (Meaning.const false).holds x = false := rfl
    simp [Reading.met_pushAll, Reading.met_empty, Keyword.bucket, Bucket.covers, beside, alone,
      Meaning.holds_everyKey, Instance.equalsScalar, Instance.text?, refused]

theorem heeded_patternProperties (hs : table.Standard)
    (hk : table.Knows "additionalProperties" .additionalProperties)
    (hc : table.contains "patternProperties" = false) :
    ¬Unheeded o table "patternProperties" := by
  intro h
  let patterns : Json := .object [("[", .bool true)]
  obtain ⟨hiff, -⟩ := h.alone (k := .additionalProperties) hk hc (.bool true) patterns
  rw [(sole_beside (k := .additionalProperties) hs hk hc _ patterns).compiles_iff,
    (sole_alone (k := .additionalProperties) hs hk _).compiles_iff] at hiff
  have bad : o.reads "[" = false := by
    have literal : Pattern.literal? "[".toList = none := by decide
    have respelled (b : Pattern.Boundary) :
        Pattern.respell o.unicodeAwareRegex b "[".toList = ['['] := by
      cases o.unicodeAwareRegex <;> cases b <;> decide
    rw [Options.reads, Pattern.compile?, literal, Pattern.expression?, respelled, respelled,
      Pattern.Engines.standard_unclosed, Pattern.Engines.backtracking_unclosed]
    rfl
  have beside := (hiff.mpr ⟨rfl, rfl, fun part hpart => ?_⟩).2.1
  · have patterned : ([("[", .bool true)] : Json.Members).all (o.reads ·.1) = true := beside
    simp [bad] at patterned
  · cases List.mem_singleton.mp hpart
    exact soundThroughout_bool true

theorem heeded_items (hs : table.Standard)
    (hk : table.Knows "additionalItems" .additionalItems)
    (hc : table.contains "items" = false) : ¬Unheeded o table "items" := by
  intro h
  obtain ⟨hiff, -⟩ := h.alone (k := .additionalItems) hk hc .null (.array [])
  rw [(sole_beside (k := .additionalItems) hs hk hc _ _).compiles_iff,
    (sole_alone (k := .additionalItems) hs hk _).compiles_iff] at hiff
  have beside := (hiff.mpr ⟨rfl, rfl, fun part hpart => nomatch hpart⟩).2.2
  exact beside .null (.head _) .null .root

theorem heeded_contains (hs : table.Standard) {k : Keyword}
    (hbound : k = .minContains ∨ k = .maxContains) (hk : table.Knows k.name k)
    (hc : table.contains "contains" = false) : ¬Unheeded o table "contains" := by
  have kept : k ∉ [.allOf, .not] := by rcases hbound with rfl | rfl <;> simp
  refine heeded_of_readings hs hk hc (.number (.natural 1)) (.bool true) ?_ ?_
  · refine (sole_beside hs hk hc _ _).compiles_iff.mpr ?_
    rcases hbound with rfl | rfl
    · exact ⟨rfl, rfl, fun part hpart => nomatch hpart⟩
    · exact ⟨rfl, rfl, fun part hpart => nomatch hpart⟩
  · intro fuel fuel' u u' hu hu'
    have void : u.Void := (void_iff_idle kept rfl hu).mpr (by rcases hbound with rfl | rfl <;> rfl)
    have asks : ¬u'.Void := by
      rw [void_iff_idle kept rfl hu']
      rcases hbound with rfl | rfl <;> exact Bool.false_ne_true
    have aside : u'.Open := by
      rcases hbound with rfl | rfl
      · cases hu'
        exact (Reading.open_pushAll {} .arrays _).mpr ⟨additive_open.empty, by simp⟩
      · cases hu'
        exact (Reading.open_pushAll {} .arrays _).mpr ⟨additive_open.empty, by simp⟩
    exact .inr fun hiff => (hiff.mpr ⟨aside, asks⟩).2 void

theorem heeded_of_peeks (hs : table.Standard) {gone : String}
    (hc : table.contains gone = false) (hp : table.Peeks gone) : ¬Unheeded o table gone := by
  obtain ⟨name, k, hk, hpeek⟩ := hp
  obtain ⟨rfl, -⟩ := name_of_ofName? (hs.knows_iff.mp hk).1
  cases k with
  | properties =>
    cases List.mem_singleton.mp hpeek
    exact heeded_required hs hk hc
  | additionalProperties =>
    rcases List.mem_pair.mp hpeek with rfl | rfl
    · exact heeded_properties hs hk hc
    · exact heeded_patternProperties hs hk hc
  | additionalItems =>
    cases List.mem_singleton.mp hpeek
    exact heeded_items hs hk hc
  | minContains =>
    cases List.mem_singleton.mp hpeek
    exact heeded_contains hs (.inl rfl) hk hc
  | maxContains =>
    cases List.mem_singleton.mp hpeek
    exact heeded_contains hs (.inr rfl) hk hc
  | _ => cases hpeek

/-- A name that the table does not contain has no effect, exactly if no keyword of the table reads
it without asking. -/
theorem unheeded_iff_not_peeks (hs : table.Standard) {name : String}
    (hc : table.contains name = false) (o : Options) :
    Unheeded o table name ↔ ¬table.Peeks name :=
  ⟨fun h hp => heeded_of_peeks hs hc hp h, fun hp => unheeded_of_not_peeks hs hc hp o⟩

end Peeking

/-- The tables of the drafts contain every name that is read without asking. -/
theorem contains_of_peeks {table : Table} (ht : table = .draft6 ∨ table = .draft2020)
    {name : String} (hp : table.Peeks name) : table.contains name = true := by
  obtain ⟨other, k, -, hpeek⟩ := hp
  cases k with
  | properties | additionalItems | minContains | maxContains =>
    cases List.mem_singleton.mp hpeek
    rcases ht with rfl | rfl <;> rfl
  | additionalProperties =>
    rcases List.mem_pair.mp hpeek with rfl | rfl
    · rcases ht with rfl | rfl <;> rfl
    · rcases ht with rfl | rfl <;> rfl
  | _ => cases hpeek

/-- `prefixItems` is no keyword of draft 6, so `items` does not leave the first items to it. -/
theorem prefixItems_unheeded :
    Table.draft6.contains "prefixItems" = false ∧ ¬Table.draft6.Peeks "prefixItems" ∧
      Unheeded .strict .draft6 "prefixItems" := by
  have unread : ¬Table.draft6.Peeks "prefixItems" := fun hp =>
    Bool.false_ne_true (contains_of_peeks (.inl rfl) hp)
  exact ⟨rfl, unread,
    (unheeded_iff_not_peeks (standard_of_draft (.inl rfl)) rfl .strict).mpr unread⟩

/-- A list of required members is heeded by a table that knows nothing but `properties`. -/
theorem required_heeded_by_properties :
    let table := Table.empty.withPass [.properties]
    let members : Json.Members := [("properties", .object [("a", .bool true)]),
      ("required", .array [.string "a"])]
    table.contains "required" = false ∧ ∃ p q, compile (.object members) table {} = .ok p ∧
      compile (.object (members.without "required")) table {} = .ok q ∧
      p.isValid (.object []) = false ∧ q.isValid (.object []) = true := by
  intro table members
  have h : compile (.object members) table {} = .ok _ := rfl
  have h' : compile (.object (members.without "required")) table {} = .ok _ := rfl
  exact ⟨rfl, _, _, h, h', by decide +kernel, by decide +kernel⟩

end SchemaLogic
