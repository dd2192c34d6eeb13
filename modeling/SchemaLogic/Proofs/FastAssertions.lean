import SchemaLogic.Proofs.Equality
import SchemaLogic.Proofs.PairedSchemas

/-! # Fast assertions

With fast assertions `enum` looks for a value in a table and `uniqueItems` compares items within
kinds; without them both compare by value. On values without real numbers a schema judges alike.

The two differ in one respect: an empty `enum` is a constant only without fast assertions. That
shows on a missing value, so it matters where `properties` counts on a `required` that the table
does not know. -/
namespace SchemaLogic

def Enumerates (table : Table) (schema : Json) (items : List Json) : Prop :=
  ∃ members name pass, Subschema table schema (.object members) ∧ (name, .array items) ∈ members ∧
    pass ∈ table ∧ Pass.get? pass name = some .enum

def Options.hastened (o : Options) (exact : Prop) : Pairing :=
  .diagonal { o with fastAssertions := true } { o with fastAssertions := false } exact Json.Whole

theorem hereditary_whole : Hereditary Json.Whole where
  item h _ hi := h.item hi
  member h _ hm := h.member hm
  key _ _ _ _ := ⟨trivial, rfl⟩

/-! ## The items of an `enum` -/

theorem Hereditary.inside {good : Json → Prop} (h : Hereditary good) {json part : Json}
    (hjson : good json) (hpart : Json.Inside part json) : good part := by
  induction hpart with
  | self => exact hjson
  | item hi _ ih => exact ih (h.item hjson _ hi)
  | member hm _ ih => exact ih (h.member hjson _ hm)

theorem Hereditary.subschema {good : Json → Prop} (h : Hereditary good) {table : Table}
    {schema inner : Json} (hgood : good schema) (hsub : Subschema table schema inner) :
    good inner := by
  induction hsub with
  | self => exact hgood
  | inside hmember _ _ hpart _ ih =>
    exact ih (h.inside (h.member hgood _ hmember) (Keyword.parts_inside hpart))

theorem Enumerates.whole {table : Table} {schema : Json} {items : List Json}
    (h : Enumerates table schema items) (hschema : schema.Whole) : ∀ item ∈ items, item.Whole := by
  obtain ⟨members, name, pass, hsub, hmember, -, -⟩ := h
  have inner : (Json.object members).Whole := hereditary_whole.subschema hschema hsub
  have listed : (Json.array items).Whole := inner.member hmember
  exact fun item hi => listed.item hi

/-! ## Keywords -/

section Hastened

variable {o : Options} {exact : Prop} {n : Node}

theorem lawful_hastened : (o.hastened exact).Lawful :=
  lawful_diagonal rfl (fun _ _ t => by cases t <;> rfl) hereditary_whole

theorem any_same_eq_any_equal {items : List Json} (hitems : ∀ item ∈ items, item.Whole) {v : Json}
    (hv : v.Whole) : items.any (·.same v) = items.any (·.equal v) := by
  induction items with
  | nil => rfl
  | cons item rest ih =>
    rw [List.any_cons, List.any_cons, Json.same_eq_equal (hitems item (by simp)) hv,
      ih fun x hx => hitems x (.tail _ hx)]

theorem isUnique_same_eq_equal {items : List Json} (h : (Json.array items).Whole) :
    Json.isUnique Json.same items = Json.isUnique Json.equal items := by
  rw [Bool.eq_iff_iff, isUnique_iff, isUnique_iff]
  refine List.Pairwise.iff_of_mem fun ha hb => ?_
  rw [Json.same_eq_equal (h.item ha) (h.item hb)]

variable [Pattern.Engines]

/-- A table of literals and the alternatives unrolled from it; only the latter may be constant. -/
theorem asserts_enum (hitems : ∀ items, n.value = .array items → ∀ item ∈ items, item.Whole)
    (hexact : exact → n.value ≠ .array []) : (o.hastened exact).Asserts .enum n := by
  intro f g
  refine Agree.share (expectArray "enum" n.value) fun items hvalue => ?_
  have whole := hitems items (expectArray_ok hvalue)
  refine .ok (.singleton ⟨fun i j hij => ?_, fun he => ?_⟩)
  · rw [Meaning.holds_disj, List.any_map]
    cases hij.1 with
    | value h =>
      obtain ⟨rfl, hv⟩ := h
      exact any_same_eq_any_equal whole hv
    | missing _ =>
      have nowhere : items.any ((Meaning.holds · none) ∘ Meaning.equalTo) = false := by simp
      exact nowhere.symm
  · cases items with
    | nil => exact absurd (expectArray_ok hvalue) (hexact he)
    | cons item rest =>
      refine (Meaning.const?_joined_of_tests false fun m hm => ?_).symm
      obtain ⟨literal, -, rfl⟩ : ∃ literal ∈ item :: rest, Meaning.equalTo literal = m :=
        List.mem_map.mp hm
      rfl

theorem asserts_uniqueItems : (o.hastened exact).Asserts .uniqueItems n := by
  intro f g
  obtain ⟨options, table, members, value, ref⟩ := n
  cases value with
  | bool b =>
    cases b with
    | false => exact .ok .nil
    | true =>
      refine .ok (.singleton (.test fun i j hij => ?_))
      cases hij.1 with
      | @value v _ h =>
        obtain ⟨rfl, hv⟩ := h
        cases v with
        | array items => exact isUnique_same_eq_equal hv
        | _ => rfl
      | missing _ => rfl
  | _ => exact .error rfl

theorem asserts_hastened {k : Keyword} (hk : k.asserts = true)
    (hitems : k = .enum → ∀ items, n.value = .array items → ∀ item ∈ items, item.Whole)
    (hexact : k = .enum → exact → n.value ≠ .array []) : (o.hastened exact).Asserts k n := by
  cases k with
  | enum => exact asserts_enum (hitems rfl) (hexact rfl)
  | uniqueItems => exact asserts_uniqueItems
  | const | minLength | maxLength | pattern | multipleOf | minimum | maximum | exclusiveMinimum
  | exclusiveMaximum | minItems | maxItems | minContains | maxContains | minProperties
  | maxProperties | custom _ => exact fun _ _ => agree_same rfl
  | _ => cases hk

end Hastened

/-- With fast assertions and without them a schema compiles or fails alike, and a value without real
numbers is judged alike, if there are none in the items of an `enum` either. An `enum` may be empty
if the table knows `required` or does not know `properties`. -/
theorem fastAssertions_exact [Pattern.Engines] (table : Table) (schema : Json) (o : Options)
    (hitems : ∀ items, Enumerates table schema items → ∀ item ∈ items, item.Whole)
    (hgap : (∀ items, Enumerates table schema items → items ≠ []) ∨
      (table.Relies → table.Requires)) :
    (∀ e, compile schema table { o with fastAssertions := true } = .error e ↔
      compile schema table { o with fastAssertions := false } = .error e) ∧
    ∀ p q, compile schema table { o with fastAssertions := true } = .ok p →
      compile schema table { o with fastAssertions := false } = .ok q →
        ∀ v : Json, v.Whole → p.isValid v = q.isValid v := by
  let exact : Prop := ∀ items, Enumerates table schema items → items ≠ []
  have asserts : ∀ members, Subschema table schema (.object members) →
      (o.hastened exact).AssertsAll table members := by
    intro members hsub member hmember pass hpass k hget hk
    have listed {items : List Json} (he : k = .enum) (hv : member.2 = .array items) :
        Enumerates table schema items :=
      ⟨members, member.1, pass, hsub, hv ▸ hmember, hpass, he ▸ hget⟩
    refine asserts_hastened hk (fun he items hv => hitems items (listed he hv)) ?_
    intro he hexact hv
    exact hexact [] (listed he hv) rfl
  obtain ⟨errors, verdicts⟩ := compile_twins lawful_hastened table schema hgap asserts
  refine ⟨errors, fun p q hp hq v hv => ?_⟩
  exact verdicts p q hp hq (some v) (some v) (.value ⟨rfl, hv⟩)

/-- An `enum` under `items` and an empty one under `not`, with `uniqueItems` beside them: integers
and objects are judged alike, while `1.0` is found only by its value. -/
theorem integers_found_alike :
    let schema : Json := .object [
      ("items", .object [("enum", .array [.number (.natural 1), .object [("x", .null)]])]),
      ("not", .object [("enum", .array [])]), ("uniqueItems", .bool true)]
    let value : Json := .array [.object [("x", .null)], .number (.natural 1)]
    let real : Json := .array [.number (.real ⟨false, 4503599627370496, -52, by decide⟩)]
    schema.Whole ∧ value.Whole ∧
      ∃ p q, compile schema .draft2020 { fastAssertions := true } = .ok p ∧
        compile schema .draft2020 { fastAssertions := false } = .ok q ∧
        p.isValid value = q.isValid value ∧ p.isValid value = true ∧
        p.isValid real = false ∧ q.isValid real = true := by
  intro schema value real
  have hs : schema.Whole := by
    refine ⟨?_, by decide⟩
    simp only [schema, Json.Sorted, Json.SortedItems, Json.SortedMembers]
    decide
  have hv : value.Whole := by
    refine ⟨?_, by decide⟩
    simp only [value, Json.Sorted, Json.SortedItems, Json.SortedMembers]
    decide
  have h : compile schema .draft2020 { fastAssertions := true } = .ok _ := rfl
  have h' : compile schema .draft2020 { fastAssertions := false } = .ok _ := rfl
  have verdicts := (fastAssertions_exact .draft2020 schema {} (fun items he => he.whole hs)
    (.inr fun _ => requires_of_draft (.inr rfl))).2 _ _ h h'
  exact ⟨hs, hv, _, _, h, h', verdicts value hv, by decide, by decide, by decide⟩

/-- Where the table knows `properties` and not `required`, an empty `enum` under a member that is
listed as required tells the two apart: the fast one finds nothing in the empty table, and the other
one has no condition left but that the member is present. -/
theorem empty_enum_noticed :
    let table : Table := Table.empty.withPass [.properties, .not, .enum]
    let schema : Json := .object [
      ("properties", .object [("a", .object [("not", .object [("enum", .array [])])])]),
      ("required", .array [.string "a"])]
    schema.throughout Json.noReal = true ∧
      ∃ p q, compile schema table { fastAssertions := true } = .ok p ∧
        compile schema table { fastAssertions := false } = .ok q ∧
        p.isValid (.object []) = true ∧ q.isValid (.object []) = false :=
  ⟨by decide, _, _, rfl, rfl, by decide, by decide⟩

end SchemaLogic
