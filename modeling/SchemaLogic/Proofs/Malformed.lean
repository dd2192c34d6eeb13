import SchemaLogic.Proofs.ReferenceFree
import SchemaLogic.Proofs.Shapes

/-! # Which schemas compile

A schema fails to compile exactly if there is something malformed at one of its schema positions.
Nothing is hidden: what a keyword adds to a reading, and what the reading held before, have no say
in whether the keyword can be read. -/
namespace SchemaLogic

/-! ## Schema positions -/

def Table.Knows (table : Table) (name : String) (k : Keyword) : Prop :=
  ∃ pass ∈ table, Pass.get? pass name = some k

/-- The schema positions of a schema: its root, and all that its keywords take for schemas. -/
inductive Position (table : Table) : Json → Json → Prop where
  | root {schema} : Position table schema schema
  | inside {members name value k part inner} : (name, value) ∈ members → table.Knows name k →
      part ∈ k.subschemas members value → Position table part inner →
      Position table (.object members) inner

theorem Table.Standard.knows {table : Table} (hs : table.Standard) {name : String} {k : Keyword}
    (hk : Keyword.ofName? name = some k) (hc : table.contains name = true) :
    table.Knows name k := by
  obtain ⟨pass, hp, hget⟩ := List.any_eq_true.mp hc
  obtain ⟨k', hget⟩ := Option.isSome_iff_exists.mp hget
  have named := hs pass hp name k' hget
  rw [hk] at named
  exact ⟨pass, hp, named ▸ hget⟩

theorem Table.Standard.knows_iff {table : Table} (h : table.Standard) {name : String}
    {k : Keyword} :
    table.Knows name k ↔ Keyword.ofName? name = some k ∧ table.contains name = true := by
  constructor
  · rintro ⟨pass, hp, hget⟩
    exact ⟨h pass hp name k hget, List.any_eq_true.mpr ⟨pass, hp, Option.isSome_of_eq_some hget⟩⟩
  · exact fun ⟨hk, hc⟩ => h.knows hk hc

theorem Table.Standard.eq_of_knows {table : Table} (h : table.Standard) {name : String}
    {k known : Keyword} (hk : table.Knows name k) (hn : Keyword.ofName? name = some known) :
    k = known :=
  Option.some.inj ((h.knows_iff.mp hk).1.symm.trans hn)

theorem Keyword.mem_parts {k : Keyword} {members : Json.Members} {value part : Json}
    (h : part ∈ k.subschemas members value) : part ∈ k.parts value := by
  cases k with
  | additionalItems =>
    simp only [subschemas] at h
    split at h
    · exact h
    · cases h
  | dependencies => exact List.mem_of_mem_filter h
  | _ => exact h

theorem isOk_containsBound {n : Node} {keyword : String}
    (h : n.table.contains keyword = true → ∀ value, n.sibling? keyword = some value →
      (limit? value).isSome = true) : (n.containsBound keyword).isOk = true := by
  rw [Node.containsBound]
  split
  · next hc =>
    cases hl : n.sibling? keyword with
    | none => rfl
    | some value =>
      have limit := h hc value hl
      rw [← isOk_expectLimit keyword, isOk_iff] at limit
      obtain ⟨bound, hbound⟩ := limit
      simp only [hbound]
      rfl
  · rfl

theorem isOk_combined {keyword : String} {value : Json}
    {f : List Json → Except CompileError Reading} {good : Json → Prop}
    (h : (f (value.items?.getD [])).isOk = true ↔ ∀ part ∈ value.items?.getD [], good part) :
    (expectNonEmptyArray keyword value >>= f).isOk = true ↔
      value.items?.any (!·.isEmpty) = true ∧ true = true ∧
        ∀ part ∈ value.items?.getD [], good part := by
  rw [← isOk_expectNonEmptyArray keyword, and_iff_right (rfl : true = true)]
  cases hv : expectNonEmptyArray keyword value with
  | error e => exact iff_of_false Bool.false_ne_true fun h => Bool.false_ne_true h.1
  | ok schemas =>
    rw [items_of_nonEmptyArray hv] at h ⊢
    exact h.trans (and_iff_right rfl).symm

section Whole

variable [Pattern.Engines] {o : Options} {table : Table}

/-- What stands at a schema position is a boolean, or an object whose keywords can be read. -/
def Sound (o : Options) (table : Table) : Json → Prop
  | .bool _ => True
  | .object members => ∀ name value k, (name, value) ∈ members → table.Knows name k →
      k.fits o value = true ∧ k.legible ⟨o, table, members, value, .input⟩ = true
  | _ => False

def SoundThroughout (o : Options) (table : Table) (schema : Json) : Prop :=
  ∀ inner, Position table schema inner → Sound o table inner

theorem soundThroughout_bool (b : Bool) : SoundThroughout o table (.bool b) := by
  intro inner hinner
  cases hinner
  trivial

theorem soundThroughout_object {members : Json.Members} :
    SoundThroughout o table (.object members) ↔ ∀ member ∈ members, ∀ k, table.Knows member.1 k →
      k.fits o member.2 = true ∧ k.legible ⟨o, table, members, member.2, .input⟩ = true ∧
        ∀ part ∈ k.subschemas members member.2, SoundThroughout o table part := by
  constructor
  · intro h member hm k hk
    obtain ⟨hfits, hlegible⟩ := h _ .root member.1 member.2 k hm hk
    exact ⟨hfits, hlegible, fun part hpart inner hinner => h inner (.inside hm hk hpart hinner)⟩
  · intro h inner hinner
    cases hinner with
    | root =>
      intro name value k hm hk
      obtain ⟨hfits, hlegible, -⟩ := h (name, value) hm k hk
      exact ⟨hfits, hlegible⟩
    | inside hm hk hpart hinner => exact (h _ hm _ hk).2.2 _ hpart inner hinner

theorem isOk_interpret {enrich : Enrich} {schema : Json}
    (h : ∀ s, (enrich schema s).isOk = true ↔ SoundThroughout o table schema) :
    (enrich.interpret o schema).isOk = true ↔ SoundThroughout o table schema := by
  cases schema with
  | bool b => exact iff_of_true (by cases b <;> rfl) (soundThroughout_bool b)
  | object members =>
    rw [← h {}]
    exact Bool.eq_iff_iff.mp (isOk_bind_pure _ _)
  | _ => exact iff_of_false Bool.false_ne_true fun hs => hs _ .root

/-- Whether a keyword can be read does not depend on what was read before. -/
theorem isOk_enrich {enrich : Enrich} (k : Keyword) (n : Node)
    (h : ∀ part ∈ k.subschemas n.members n.value, ∀ s,
      (enrich part s).isOk = true ↔ SoundThroughout n.options table part) (s : Reading) :
    (k.enrich enrich n s).isOk = true ↔ k.fits n.options n.value = true ∧ k.legible n = true ∧
      ∀ part ∈ k.subschemas n.members n.value, SoundThroughout n.options table part := by
  have demanded (hk : k ∉ [.type, .anyOf, .oneOf, .allOf]) :
      (k.demands (enrich.interpret n.options) n >>= fun ms => pure (s.pushAll k.bucket ms)).isOk =
        true ↔ k.fits n.options n.value = true ∧ k.legible n = true ∧
          ∀ part ∈ k.subschemas n.members n.value, SoundThroughout n.options table part := by
    rw [isOk_bind_pure, isOk_demands rfl k hk n, Bool.and_eq_true, Bool.and_eq_true, and_assoc,
      List.all_eq_true]
    refine and_congr_right' (and_congr_right' (forall₂_congr fun part hpart => ?_))
    exact isOk_interpret (h part hpart)
  have branches {schemas : List Json}
      (h : ∀ part ∈ schemas, ∀ s, (enrich part s).isOk = true ↔
        SoundThroughout n.options table part) :
      (n.branchMeanings enrich s schemas).isOk = true ↔
        ∀ part ∈ schemas, SoundThroughout n.options table part := by
    rw [isOk_branches, List.all_eq_true]
    exact forall₂_congr fun part hpart => h part hpart s.fork
  cases k with
  | type =>
    have types := (isOk_bind_pure (Node.declaredTypes n.value) s.declare).trans
      (isOk_declaredTypes n.options n.value)
    refine (Bool.eq_iff_iff.mp types).trans (iff_self_and.mpr fun _ => ⟨rfl, fun part hp => ?_⟩)
    cases hp
  | anyOf | oneOf =>
    refine isOk_combined ?_
    rw [isOk_bind_pure]
    exact branches h
  | allOf => exact isOk_combined (isOk_foldlM h s)
  | _ => exact demanded (by simp)

theorem isOk_enrichMember {fuel : Nat} (members : Json.Members) {member : String × Json}
    (h : ∀ part : Json, part.depth ≤ member.2.depth → ∀ s,
      (enrichAt o table fuel part s).isOk = true ↔ SoundThroughout o table part)
    (pass : Pass) (s : Reading) :
    (enrichMember (enrichAt o table fuel) o table members pass s member).isOk = true ↔
      ∀ k, pass.get? member.1 = some k → k.fits o member.2 = true ∧
        k.legible ⟨o, table, members, member.2, .input⟩ = true ∧
        ∀ part ∈ k.subschemas members member.2, SoundThroughout o table part := by
  rw [enrichMember]
  cases hget : pass.get? member.1 with
  | none =>
    refine iff_of_true rfl fun k hk => ?_
    cases hk
  | some k =>
    have inner : ∀ part ∈ k.subschemas members member.2, ∀ s,
        (enrichAt o table fuel part s).isOk = true ↔ SoundThroughout o table part := by
      intro part hpart
      exact h part (k.parts_inside (k.mem_parts hpart)).depth_le
    have keyword := isOk_enrich k ⟨o, table, members, member.2, .input⟩ inner s
    exact keyword.trans ⟨fun h k' hk => Option.some.inj hk ▸ h, fun h => h k rfl⟩

theorem isOk_enrichAt {fuel : Nat} {schema : Json} (hd : schema.depth < fuel) (s : Reading) :
    (enrichAt o table fuel schema s).isOk = true ↔ SoundThroughout o table schema := by
  induction fuel generalizing schema s with
  | zero => omega
  | succ fuel ih =>
    cases schema with
    | object members =>
      have below (member : String × Json) (hm : member ∈ members) (part : Json)
          (hpart : part.depth ≤ member.2.depth) (s : Reading) :
          (enrichAt o table fuel part s).isOk = true ↔ SoundThroughout o table part := by
        have hmember := Json.depth_member hm
        exact ih (by omega) s
      have passes := isOk_foldlM (s := s) (l := table) fun pass _ s =>
        isOk_foldlM (fun member hm => isOk_enrichMember members (below member hm) pass) s
      refine passes.trans (Iff.trans ?_ soundThroughout_object.symm)
      constructor
      · rintro h m hm k ⟨pass, hpass, hget⟩
        exact h pass hpass m hm k hget
      · intro h pass hpass m hm k hget
        exact h m hm k ⟨pass, hpass, hget⟩
    | bool b => exact iff_of_true (by cases b <;> rfl) (soundThroughout_bool b)
    | _ => exact iff_of_false Bool.false_ne_true fun hs => hs _ .root

theorem compile_ok_iff (schema : Json) :
    (∃ p, compile schema table o = .ok p) ↔ SoundThroughout o table schema := by
  rw [← isOk_interpret (isOk_enrichAt (Nat.lt_succ_self schema.depth)), isOk_iff]
  constructor
  · rintro ⟨p, hp⟩
    obtain ⟨m, hm, -⟩ := compile_ok hp
    exact ⟨m, hm⟩
  · rintro ⟨m, hm⟩
    exact compile_of_meaning hm

/-! ## What is malformed -/

/-- What is malformed at a schema position: something that is no schema, or a keyword of the table
with a value that does not fit. -/
inductive Malformed (o : Options) (table : Table) : Json → Prop where
  | noSchema {schema} : schema.isBool = false → schema.members? = none → Malformed o table schema
  | keyword {members name value k} : (name, value) ∈ members → table.Knows name k →
      k.fits o value = false → Malformed o table (.object members)

/-- What keywords read beside themselves is legible where the values of all keywords fit: the table
knows the keywords that they look at. -/
theorem legible_of_fits (hs : table.Standard)
    (hp : table.contains "additionalProperties" = true → table.contains "patternProperties" = true)
    {members : Json.Members}
    (h : ∀ name value k, (name, value) ∈ members → table.Knows name k → k.fits o value = true)
    {name : String} {k : Keyword} (hk : table.Knows name k) (value : Json) :
    k.legible ⟨o, table, members, value, .input⟩ = true := by
  obtain ⟨pass, hpass, hget⟩ := hk
  obtain ⟨rfl, hbuilt⟩ := name_of_ofName? (hs pass hpass name k hget)
  cases k with
  | custom c => exact absurd rfl (hbuilt c)
  | contains =>
    refine Bool.and_eq_true_iff.mpr ⟨isOk_containsBound fun hc bound hl => ?_,
      isOk_containsBound fun hc bound hl => ?_⟩
    · exact h _ bound .minContains (Json.mem_of_lookup hl) (hs.knows rfl hc)
    · exact h _ bound .maxContains (Json.mem_of_lookup hl) (hs.knows rfl hc)
  | additionalProperties =>
    have hc : table.contains "additionalProperties" = true :=
      List.any_eq_true.mpr ⟨pass, hpass, Option.isSome_of_eq_some hget⟩
    simp only [Keyword.legible, Node.siblingMembers, Node.sibling?]
    split
    · next patterns hl =>
      exact h _ (.object patterns) .patternProperties (Json.mem_of_lookup hl)
        (hs.knows rfl (hp hc))
    · rfl
  | _ => rfl

theorem sound_iff_not_malformed (hs : table.Standard)
    (hp : table.contains "additionalProperties" = true → table.contains "patternProperties" = true)
    (schema : Json) : Sound o table schema ↔ ¬Malformed o table schema := by
  cases schema with
  | bool b =>
    refine iff_of_true trivial ?_
    rintro ⟨hbool, -⟩
    cases hbool
  | object members =>
    constructor
    · intro h hmal
      cases hmal with
      | noSchema _ hobject => cases hobject
      | keyword hm hk hfits =>
        rw [(h _ _ _ hm hk).1] at hfits
        cases hfits
    · intro h
      have fits : ∀ name value k, (name, value) ∈ members → table.Knows name k →
          k.fits o value = true := by
        intro name value k hm hk
        rw [← Bool.not_eq_false]
        exact fun hfits => h (.keyword hm hk hfits)
      intro name value k hm hk
      exact ⟨fits name value k hm hk, legible_of_fits hs hp fits hk value⟩
  | _ => exact iff_of_false id fun h => h (.noSchema rfl rfl)

/-- Compilation fails exactly on schemas with something malformed at a schema position. -/
theorem compile_fails_iff_malformed (ht : table = .draft6 ∨ table = .draft2020) (o : Options)
    (schema : Json) : (∃ e, compile schema table o = .error e) ↔
      ∃ inner, Position table schema inner ∧ Malformed o table inner := by
  have hs : table.Standard := standard_of_draft ht
  have hp : table.contains "additionalProperties" = true →
      table.contains "patternProperties" = true := by
    rcases ht with rfl | rfl <;> exact fun _ => rfl
  have fails : (∃ e, compile schema table o = .error e) ↔ ¬∃ p, compile schema table o = .ok p := by
    cases compile schema table o <;> simp
  rw [fails, compile_ok_iff, SoundThroughout]
  simp only [sound_iff_not_malformed hs hp, not_forall, not_not, exists_prop]

end Whole

/-- A limit below zero is found under `contains`, `not` and positional `items`, although no array
passes the declared types, one branch is never taken and another schema beside it is `false`. What
stands under `additionalItems` is no schema without positional `items`. -/
theorem hidden_limit_found :
    let inner : Json := .object [("minLength", .number (.negative 0))]
    let schema : Json := .object [
      ("additionalItems", .null),
      ("allOf", .array [.bool false, .object [("type", .string "number")]]),
      ("anyOf", .array [.bool true, .object [("items", .array [.bool true,
        .object [("not", .object [("contains", inner)])]])]]),
      ("type", .string "string")]
    Position .draft6 schema inner ∧ (∃ e, compile schema .draft6 {} = .error e) ∧
      ∃ p, compile (.object [("additionalItems", .null)]) .draft6 {} = .ok p := by
  intro inner schema
  have hs : Table.Standard .draft6 := standard_of_draft (.inl rfl)
  have known {name : String} {k : Keyword} (hk : Keyword.ofName? name = some k)
      (hc : Table.draft6.contains name = true) : Table.draft6.Knows name k := hs.knows hk hc
  have found : Position .draft6 schema inner :=
    .inside (.tail _ (.tail _ (.head _))) (known (k := .anyOf) rfl rfl) (.tail _ (.head _))
      (.inside (.head _) (known (k := .items) rfl rfl) (.tail _ (.head _))
        (.inside (.head _) (known (k := .not) rfl rfl) (.head _)
          (.inside (.head _) (known (k := .contains) rfl rfl) (.head _) .root)))
  have malformed : Malformed {} .draft6 inner :=
    .keyword (.head _) (known (k := .minLength) rfl rfl) rfl
  exact ⟨found, (compile_fails_iff_malformed (.inl rfl) {} schema).mpr ⟨inner, found, malformed⟩,
    _, rfl⟩

end SchemaLogic
