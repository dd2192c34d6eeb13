import SchemaLogic.Proofs.EqualValues
import SchemaLogic.Proofs.PairedSchemas
import SchemaLogic.Proofs.ReferenceFree

/-! # Equal values are judged alike

Without fast assertions a predicate cannot tell equal values apart: 1 and 1.0 are interchangeable at
any depth. Divisibility is left out: it rounds reals and not integers. -/
namespace SchemaLogic

def Uses (table : Table) (schema : Json) (k : Keyword) : Prop :=
  ∃ members name value pass, Subschema table schema (.object members) ∧ (name, value) ∈ members ∧
    pass ∈ table ∧ Pass.get? pass name = some k

theorem Uses.ne_of_lacks {table : Table} {schema : Json} {k k' : Keyword}
    (h : Uses table schema k) (hs : table.Standard) (hlacks : schema.lacks k'.name = true) :
    k ≠ k' ∧ ∀ c, k ≠ .custom c := by
  obtain ⟨members, name, value, pass, hsub, hmember, hpass, hget⟩ := h
  obtain ⟨hname, hcustom⟩ := name_of_ofName? (hs pass hpass name k hget)
  refine ⟨?_, hcustom⟩
  rintro rfl
  exact (Json.lacks_member (hsub.lacks hlacks) _ hmember).1 hname

/-! ## Views of interchangeable values -/

namespace Json.Interchangeable

variable {u v : Json}

theorem hasType_eq (h : u.Interchangeable v) (check : TypeCheck) :
    (Instance.value u).hasType check = (Instance.value v).hasType check := by
  cases h.parallel with
  | @number n m hvalue =>
    have integers : n.isInteger = m.isInteger := by
      rw [Bool.eq_iff_iff, Number.isInteger_iff, Number.isInteger_iff, hvalue]
    cases check <;> first | rfl | exact integers
  | _ => cases check <;> rfl

theorem text_eq (h : u.Interchangeable v) :
    (Instance.value u).text? = (Instance.value v).text? := by
  cases h.parallel <;> rfl

theorem items_rel (h : u.Interchangeable v) :
    Option.Rel (List.Forall₂ Interchangeable) u.items? v.items? := by
  cases h.parallel with
  | array hparts => exact .some hparts
  | _ => exact .none

theorem entry_rel (h : u.Interchangeable v) (name : String) :
    Option.Rel Interchangeable (entryOf (some u) name) (entryOf (some v) name) := by
  cases h.parallel with
  | @array items others hparts =>
    change Option.Rel _ ((Pointer.parseIndex? name.toList).bind (items[·]?))
      ((Pointer.parseIndex? name.toList).bind (others[·]?))
    cases Pointer.parseIndex? name.toList with
    | none => exact .none
    | some i => exact index_interchangeable hparts i
  | object hparts => exact lookup_interchangeable hparts name
  | _ => exact .none

theorem measure_eq (h : u.Interchangeable v) (measure : Measure) :
    (Instance.value u).measure? measure = (Instance.value v).measure? measure := by
  cases h.parallel with
  | array hparts => cases measure <;> first | rfl | exact congrArg some hparts.length_eq
  | object hparts => cases measure <;> first | rfl | exact congrArg some hparts.length_eq
  | _ => cases measure <;> rfl

end Json.Interchangeable

/-! ## One schema and two equal values -/

def Options.interchanging (o : Options) : Pairing := ⟨o, o, Json.Interchangeable, True⟩

section Interchanging

variable {o : Options} {n : Node} {b : Bucket}

theorem related_of_rel {x y : Option Json} (h : Option.Rel Json.Interchangeable x y) :
    o.interchanging.Related x y := by
  cases h with
  | none => exact .missing trivial
  | some h => exact .value h

theorem visits_of_keys {v w : Json} {entries others : Entries}
    (he : (Instance.value v).entries? = some entries)
    (he' : (Instance.value w).entries? = some others) (hkeys : others.keys = entries.keys)
    (h : ∀ k ∈ entries.keys, Option.Rel Json.Interchangeable
      ((Instance.value v).member (.key k)).subject ((Instance.value w).member (.key k)).subject) :
    Option.Rel (List.Forall₂ o.interchanging.Visited) v.visits w.visits := by
  rw [Json.visits, Json.visits, he, he', Option.map_some, Option.map_some, hkeys]
  refine .some ?_
  rw [List.forall₂_map_left_iff, List.forall₂_map_right_iff, List.forall₂_same]
  intro k hk
  exact ⟨.value (.refl trivial), related_of_rel (h k hk)⟩

/-- Interchangeable values have the same keys, with interchangeable values under them. -/
theorem visits_rel {v w : Json} (h : v.Interchangeable w) :
    Option.Rel (List.Forall₂ o.interchanging.Visited) v.visits w.visits := by
  cases h.parallel with
  | @array items others hparts =>
    refine visits_of_keys rfl rfl ?_ fun k hk => ?_
    · rw [Entries.keys, Entries.keys, hparts.length_eq]
    · obtain ⟨i, -, rfl⟩ := List.mem_map.mp hk
      simp only [Instance.member, Instance.entries?, Instance.subject_ofOption]
      exact Json.index_interchangeable hparts i
  | @object members others hparts =>
    refine visits_of_keys rfl rfl ?_ fun k hk => ?_
    · have names : members.map Prod.fst = others.map Prod.fst :=
        map_eq_map_iff_forall₂.mpr (hparts.imp fun _ _ hab => hab.1)
      have keys := congrArg (List.map Key.name) names.symm
      rwa [List.map_map, List.map_map] at keys
    · obtain ⟨member, -, rfl⟩ := List.mem_map.mp hk
      simp only [Instance.member, Instance.entries?, Entries.get?, Instance.subject_ofOption]
      exact Json.lookup_interchangeable hparts member.1
  | _ => exact .none

theorem lawful_interchanging : o.interchanging.Lawful where
  unicode := rfl
  types h t := h.hasType_eq (o.check t)
  text h := by cases h.parallel <;> rfl
  items h := h.items_rel
  entry h name := h.entry_rel name
  visits h := visits_rel h

/-! ## Keywords -/

theorem twin_blind {f : Option Json → Bool}
    (h : ∀ {u v : Json}, u.Interchangeable v → f (some u) = f (some v)) :
    Twin True (o.interchanging.Asked b) (.test f) (.test f) := by
  refine .test fun i j hij => ?_
  cases hij.1 with
  | value huv => exact h huv
  | missing _ => rfl

theorem twin_equalTo (literal : Json) :
    Twin True (o.interchanging.Asked b) (.equalTo literal) (.equalTo literal) :=
  twin_blind fun h => Json.equal_interchangeable literal h

theorem twin_measure (measure : Measure) (op : CmpOp) (limit : Nat) :
    Twin True (o.interchanging.Asked b) (.size measure op limit) (.size measure op limit) :=
  twin_blind fun h => congrArg (Option.any _) (h.measure_eq measure)

theorem twin_matching (pattern : Pattern) :
    Twin True (o.interchanging.Asked b) (.matching pattern) (.matching pattern) :=
  twin_blind fun h => congrArg (Option.any _) h.text_eq

theorem agree_enum (ho : o.fastAssertions = false) :
    Agree Eq (Twins True (o.interchanging.Asked b)) (n.given o).enumDemands
      (n.given o).enumDemands := by
  have slow : (n.given o).options.fastAssertions = false := ho
  rw [Node.enumDemands, slow]
  refine Agree.share (expectArray "enum" n.value) fun literals _ => .ok (.singleton (.disj ?_))
  rw [List.forall₂_map_left_iff, List.forall₂_map_right_iff, List.forall₂_same]
  exact fun literal _ => twin_equalTo literal

theorem agree_unique (ho : o.fastAssertions = false) :
    Agree Eq (Twins True (o.interchanging.Asked b)) (n.given o).uniqueDemands
      (n.given o).uniqueDemands := by
  have slow : (n.given o).options.fastAssertions = false := ho
  rw [Node.uniqueDemands, slow]
  split
  · exact .ok .nil
  · refine .ok (.singleton (twin_blind fun h => ?_))
    cases h.parallel with
    | array _ => exact Json.isUnique_interchangeable h
    | _ => rfl
  · exact .error rfl

theorem agree_pattern [Pattern.Engines] :
    Agree Eq (Twins True (o.interchanging.Asked b)) n.patternDemands n.patternDemands := by
  rw [Node.patternDemands]
  split
  · exact Agree.share _ fun pattern _ => .ok (.singleton (twin_matching pattern))
  · exact .error rfl

theorem agree_bound (keyword : String) (op : CmpOp) :
    Agree Eq (Twins True (o.interchanging.Asked b)) (n.boundDemands keyword op)
      (n.boundDemands keyword op) := by
  refine Agree.share (expectNumber keyword n.value) fun limit _ => .ok (.singleton ?_)
  refine twin_blind fun h => ?_
  cases h.parallel with
  | @number x y hvalue =>
    change (x.toNumeric.compare? limit.toNumeric).any op.holds =
      (y.toNumeric.compare? limit.toNumeric).any op.holds
    rw [Number.compare?_eq, Number.compare?_eq, hvalue]
  | _ => rfl

theorem agree_least (keyword : String) (measure : Measure) :
    Agree Eq (Twins True (o.interchanging.Asked b)) (n.leastDemands keyword measure)
      (n.leastDemands keyword measure) := by
  refine Agree.share (expectLimit keyword n.value) fun limit _ => ?_
  split
  · exact .ok (.singleton (twin_measure measure .ge limit))
  · exact .ok .nil

theorem agree_most (keyword : String) (measure : Measure) :
    Agree Eq (Twins True (o.interchanging.Asked b)) (n.mostDemands keyword measure)
      (n.mostDemands keyword measure) :=
  Agree.share (expectLimit keyword n.value) fun limit _ =>
    .ok (.singleton (twin_measure measure .le limit))

theorem agree_containsBound (keyword : String) (op : CmpOp) :
    Agree Eq (Twins True (o.interchanging.Asked b)) (n.containsBoundDemands keyword op)
      (n.containsBoundDemands keyword op) := by
  refine Agree.share (expectLimit keyword n.value) fun limit _ => ?_
  split
  · exact .ok .nil
  · exact .ok (.singleton (twin_measure .items op limit))

theorem asserts_interchanging [Pattern.Engines] (ho : o.fastAssertions = false) {k : Keyword}
    (hk : k.asserts = true) (hdivisor : k ≠ .multipleOf) (hcustom : ∀ c, k ≠ .custom c) :
    o.interchanging.Asserts k n := by
  intro f g
  cases k with
  | enum => exact agree_enum ho
  | const => exact .ok (.singleton (twin_equalTo n.value))
  | minLength => exact agree_least "minLength" _
  | maxLength => exact agree_most "maxLength" _
  | pattern => exact agree_pattern
  | multipleOf => exact absurd rfl hdivisor
  | minimum => exact agree_bound "minimum" .ge
  | maximum => exact agree_bound "maximum" .le
  | exclusiveMinimum => exact agree_bound "exclusiveMinimum" .gt
  | exclusiveMaximum => exact agree_bound "exclusiveMaximum" .lt
  | minItems => exact agree_least "minItems" .items
  | maxItems => exact agree_most "maxItems" .items
  | uniqueItems => exact agree_unique ho
  | minContains => exact agree_containsBound "minContains" .ge
  | maxContains => exact agree_containsBound "maxContains" .le
  | minProperties => exact agree_least "minProperties" .keys
  | maxProperties => exact agree_most "maxProperties" .keys
  | custom c => exact absurd rfl (hcustom c)
  | _ => cases hk

end Interchanging

/-- Equal values get the same verdict from a predicate without fast assertions, if the schema uses
no `multipleOf` and no custom keyword. -/
theorem equal_values_judged_alike [Pattern.Engines] {table : Table} {schema : Json} {o : Options}
    {p : Predicate} (ho : o.fastAssertions = false)
    (hk : ∀ k, Uses table schema k → k ≠ .multipleOf ∧ ∀ c, k ≠ .custom c)
    (hp : compile schema table o = .ok p) {u v : Json} (hu : u.Sorted) (hv : v.Sorted)
    (h : u.equal v = true) : p.isValid u = p.isValid v := by
  have asserts : ∀ members, Subschema table schema (.object members) →
      o.interchanging.AssertsAll table members := by
    intro members hsub member hmember pass hpass k hget hasserts
    have used : Uses table schema k :=
      ⟨members, member.1, member.2, pass, hsub, hmember, hpass, hget⟩
    obtain ⟨hdivisor, hcustom⟩ := hk k used
    exact asserts_interchanging ho hasserts hdivisor hcustom
  have verdicts := (compile_twins lawful_interchanging table schema (.inl trivial) asserts).2
  have alike : u.Interchangeable v := ⟨hu, hv, (Json.equal_iff_content hu hv).mp h⟩
  exact verdicts p p hp hp (some u) (some v) (.value alike)

/-- Integers and the same numbers as reals, in an array and in a member of an object: the schema
compares them with an `enum` and with each other. Fast assertions tell them apart. -/
theorem reals_judged_as_integers :
    let schema : Json := .object [
      ("items", .object [
        ("enum", .array [.number (.natural 1), .object [("x", .number (.natural 2))]]),
        ("minimum", .number (.natural 1))]),
      ("uniqueItems", .bool true)]
    let integers : Json := .array [.number (.natural 1), .object [("x", .number (.natural 2))]]
    let reals : Json := .array [.number (.real ⟨false, 4503599627370496, -52, by decide⟩),
      .object [("x", .number (.real ⟨false, 4503599627370496, -51, by decide⟩))]]
    integers.equal reals = true ∧
      ∃ p q, compile schema .draft2020 {} = .ok p ∧ p.isValid integers = p.isValid reals ∧
        p.isValid integers = true ∧
        compile schema .draft2020 { fastAssertions := true } = .ok q ∧
        q.isValid integers = true ∧ q.isValid reals = false := by
  intro schema integers reals
  have hequal : integers.equal reals = true := by decide
  have hu : integers.Sorted := by
    simp only [integers, Json.Sorted, Json.SortedItems, Json.SortedMembers]
    decide
  have hv : reals.Sorted := by
    simp only [reals, Json.Sorted, Json.SortedItems, Json.SortedMembers]
    decide
  have hlacks : schema.lacks Keyword.multipleOf.name = true := by decide
  have h : compile schema .draft2020 {} = .ok _ := rfl
  have h' : compile schema .draft2020 { fastAssertions := true } = .ok _ := rfl
  have verdicts := equal_values_judged_alike rfl
    (fun k hk => hk.ne_of_lacks (standard_of_draft (.inr rfl)) hlacks) h hu hv hequal
  exact ⟨hequal, _, _, h, verdicts, by decide, h', by decide, by decide⟩

end SchemaLogic
