import SchemaLogic.Proofs.KeywordMeaning

/-! # Keywords that ask for nothing

A condition that is known to hold of everything is not kept. The meaning of a schema is never known
to hold, so it can be read off a keyword and its siblings whether anything is kept of it
(`folds_demands`). -/
namespace SchemaLogic

/-! ## Conditions that fold to `true` -/

namespace Meaning

variable {α β : Type} {ms : List (Meaning α)}

/-- A condition that is known to hold of everything. -/
def folds (m : Meaning α) : Bool := m.const? == some true

theorem folds_iff {m : Meaning α} : m.folds = true ↔ m.const? = some true := by simp [folds]

theorem holds_of_folds {m : Meaning α} (h : m.folds = true) (a : α) : m.holds a = true :=
  holds_of_const? (folds_iff.mp h) a

@[simp] theorem folds_test (passes : α → Bool) : (test passes).folds = false := rfl

@[simp] theorem folds_look (f : Instance → Bool) : (look f).folds = false := rfl

@[simp] theorem folds_size (measure : Measure) (op : CmpOp) (limit : Nat) :
    (size measure op limit).folds = false := rfl

@[simp] theorem folds_along (f : α → β) (m : Meaning β) : (m.along f).folds = m.folds := by
  rw [folds, const?_along, folds]

@[simp] theorem folds_property (name : String) (m : Meaning (Option Json)) :
    (m.property name).folds = m.folds := folds_along _ m

@[simp] theorem folds_index (i : Nat) (m : Meaning (Option Json)) :
    (m.index i).folds = m.folds := folds_along _ m

@[simp] theorem folds_conj (ms : List (Meaning α)) : (conj ms).folds = ms.all folds := by
  rw [folds, conj, joined, const?_known]
  split
  · next h =>
    obtain ⟨m, hm, hc⟩ : ∃ m ∈ ms, m.const? = some false := by simpa using h
    exact (List.all_eq_false.mpr ⟨m, hm, by simp [folds, hc]⟩).symm
  · next h =>
    have never : ∀ m ∈ ms, m.const? ≠ some false := by simpa using h
    have known : ms.all folds = ms.all (·.const?.isSome) := all_congr_mem fun m hm => by
      rw [folds]
      cases hc : m.const? with
      | none => rfl
      | some b =>
        cases b with
        | true => rfl
        | false => exact absurd hc (never m hm)
    rw [known]
    split
    · next hall =>
      rw [hall]
      rfl
    · next hall =>
      rw [Bool.not_eq_true] at hall
      rw [hall]
      rfl

@[simp] theorem folds_disj (ms : List (Meaning α)) : (disj ms).folds = ms.any folds := by
  rw [folds, disj, joined, const?_known]
  split
  · next h => exact (Eq.trans h rfl).symm
  · next h =>
    have never : ms.any folds = false := Bool.not_eq_true _ ▸ h
    rw [never]
    split <;> rfl

theorem folds_one (h : ∀ m ∈ ms, m.folds = false) : (one ms).folds = false := by
  have none : ms.countP (·.const? == some true) = 0 :=
    List.countP_eq_zero.mpr fun m hm => by
      have hf := h m hm
      rw [folds] at hf
      simp [hf]
  rw [folds, one, const?_known, none]
  split
  · rfl
  · split <;> rfl

@[simp] theorem folds_everyItem (m : Meaning (Option Json)) : m.everyItem.folds = m.folds := by
  rw [folds, everyItem, looped, const?_known, folds]
  split
  · next h => rw [h]
  · next h => simp [h]

@[simp] theorem folds_someItem (m : Meaning (Option Json)) : m.someItem.folds = false := by
  rw [folds, someItem, looped, const?_known]
  split <;> rfl

@[simp] theorem folds_everyKey (m : Meaning (Option Json × Option Json)) :
    m.everyKey.folds = m.folds := by
  rw [folds, everyKey, looped, const?_known, folds]
  split
  · next h => rw [h]
  · next h => simp [h]

end Meaning

@[simp] theorem Node.folds_owns (n : Node) (name : String) : (n.owns name).folds = false := by
  rw [owns]
  split <;> rfl

@[simp] theorem Node.folds_not_owns (n : Node) (name : String) :
    (n.owns name).negate.folds = false := by
  rw [owns]
  split <;> rfl

/-! ## Keywords that ask for nothing -/

/-- A keyword asks for nothing. What is said of schemas inside other schemas is left aside. -/
def Keyword.idle (k : Keyword) (n : Node) : Bool :=
  match k with
  | .minLength | .minItems | .minProperties => limit? n.value == some 0
  | .uniqueItems => n.value == .bool false
  | .items | .prefixItems => n.value == .array []
  | .required => n.value.texts.isEmpty
  | .additionalItems => !((n.sibling? "items").any Json.isArray)
  | .contains =>
    (n.rule.known? "minContains").bind limit? == some 0 &&
      ((n.rule.known? "maxContains").bind limit?).isNone
  | .minContains | .maxContains => (n.sibling? "contains").isSome
  | .properties | .patternProperties => n.value == .object []
  | .dependencies | .dependentRequired | .dependentSchemas =>
    n.value.fields.all fun trigger => trigger.2.isArray && trigger.2.texts.isEmpty
  | _ => false

def Interpret.Firm (interpret : Interpret) : Prop :=
  ∀ part m, interpret part = .ok m → m.folds = false

section Idle

variable {interpret : Interpret} {n : Node} {ms : List (Meaning (Option Json))}

theorem folds_least {keyword : String} {measure : Measure}
    (hd : n.leastDemands keyword measure = .ok ms) :
    ms.all Meaning.folds = (limit? n.value == some 0) := by
  simp only [Node.leastDemands, bind_eq_ok] at hd
  obtain ⟨limit, hl, hd⟩ := hd
  cases hd
  rw [expectLimit_ok hl]
  cases limit with
  | zero => rfl
  | succ limit => simp

theorem folds_tuple (h : interpret.Firm) {start : Nat}
    {schemas : List Json} (hd : Node.tupleDemands interpret start schemas = .ok ms) :
    ms.all Meaning.folds = (Json.array schemas == .array []) := by
  have each : ms.all Meaning.folds = (schemas.zipIdx start).all fun _ => false := by
    refine all_mapM hd ?_
    rintro ⟨schema, i⟩ - x hx
    rw [bind_eq_ok] at hx
    obtain ⟨m, hm, hx⟩ := hx
    cases hx
    simp [h schema m hm]
  rw [each]
  cases schemas with
  | nil => simp
  | cons schema schemas => simp [List.zipIdx_cons]

theorem folds_rest (h : interpret.Firm) {start : Nat}
    {schema : Json} (hd : Node.restDemands interpret schema start = .ok ms) :
    ms.all Meaning.folds = false := by
  rw [Node.restDemands] at hd
  split at hd
  · cases hd
    rfl
  · rw [bind_eq_ok] at hd
    obtain ⟨m, hm, hd⟩ := hd
    have firm := h schema m hm
    split at hd
    · cases hd
      simp [firm]
    · split at hd
      · next hc =>
        rw [Meaning.folds_iff.mpr hc] at firm
        cases firm
      · cases hd
        rfl

theorem folds_items (h : interpret.Firm)
    (hd : n.itemsDemands interpret = .ok ms) :
    ms.all Meaning.folds = (n.value == .array []) := by
  rw [Node.itemsDemands] at hd
  split at hd
  · next schemas hv =>
    rw [hv]
    exact folds_tuple h hd
  · next schema hv =>
    have other : (n.value == .array []) = false := by
      rw [beq_eq_false_iff_ne]
      exact hv []
    rw [folds_rest h hd, other]

theorem folds_positions (h : interpret.Firm)
    (hd : n.positionDemands interpret = .ok ms) :
    ms.all Meaning.folds = (n.value == .array []) := by
  simp only [Node.positionDemands, bind_eq_ok] at hd
  obtain ⟨schemas, hv, hd⟩ := hd
  rw [expectArray_ok hv]
  exact folds_tuple h hd

theorem folds_additionalItems (h : interpret.Firm)
    (hd : n.additionalItemsDemands interpret = .ok ms) :
    ms.all Meaning.folds = !(n.sibling? "items").any Json.isArray := by
  rw [Node.additionalItemsDemands] at hd
  cases hs : n.sibling? "items" with
  | none =>
    rw [hs] at hd
    cases hd
    rfl
  | some value =>
    rw [hs] at hd
    cases value with
    | array schemas => exact folds_rest h hd
    | _ =>
      cases hd
      rfl

theorem folds_contains (hd : n.containsDemands interpret = .ok ms) :
    ms.all Meaning.folds = ((n.rule.known? "minContains").bind limit? == some 0 &&
      ((n.rule.known? "maxContains").bind limit?).isNone) := by
  simp only [Node.containsDemands, bind_eq_ok] at hd
  obtain ⟨least, hleast, most, hmost, m, -, hd⟩ := hd
  rw [containsBound_ok hleast, containsBound_ok hmost]
  split at hd
  · next hnone =>
    cases hd
    obtain ⟨hl, -⟩ := Bool.and_eq_true_iff.mp hnone
    rw [Option.isNone_iff_eq_none.mp hl]
    simp
  · split at hd
    · next hzero =>
      cases hd
      simpa using hzero.symm
    · next hzero =>
      cases hd
      rw [Bool.not_eq_true] at hzero
      simpa using hzero.symm

theorem folds_containsBound {keyword : String} {op : CmpOp}
    (hd : n.containsBoundDemands keyword op = .ok ms) :
    ms.all Meaning.folds = (n.sibling? "contains").isSome := by
  simp only [Node.containsBoundDemands, bind_eq_ok] at hd
  obtain ⟨limit, -, hd⟩ := hd
  cases hd
  cases (n.sibling? "contains").isSome <;> rfl

theorem folds_owns (n : Node) (names : List String) :
    (names.map n.owns).all Meaning.folds = names.isEmpty := by
  cases names <;> simp

theorem folds_required (hd : n.requiredDemands = .ok ms) :
    ms.all Meaning.folds = n.value.texts.isEmpty := by
  simp only [Node.requiredDemands, bind_eq_ok] at hd
  obtain ⟨names, hn, hd⟩ := hd
  cases hd
  rw [folds_owns, expectStrings_ok hn]

theorem folds_properties (h : interpret.Firm)
    (hd : n.propertyDemands interpret = .ok ms) :
    ms.all Meaning.folds = (n.value == .object []) := by
  simp only [Node.propertyDemands, bind_eq_ok] at hd
  obtain ⟨properties, hp, hd⟩ := hd
  have each : ms.all Meaning.folds = properties.all fun _ => false := by
    refine all_mapM hd ?_
    rintro ⟨name, schema⟩ - x hx
    rw [bind_eq_ok] at hx
    obtain ⟨m, hm, hx⟩ := hx
    cases hx
    have firm := h schema m hm
    split <;> simp [firm]
  rw [each, expectObject_ok hp]
  cases properties <;> simp

theorem folds_dependencies (h : interpret.Firm)
    {keyword : String} {check : Json → Except CompileError Unit}
    (hd : n.dependencyDemands interpret keyword check = .ok ms) :
    ms.all Meaning.folds = n.value.fields.all fun trigger =>
      trigger.2.isArray && trigger.2.texts.isEmpty := by
  simp only [Node.dependencyDemands, bind_eq_ok] at hd
  obtain ⟨triggers, ht, hd⟩ := hd
  rw [expectObject_ok ht]
  refine all_mapM hd ?_
  rintro ⟨trigger, value⟩ - x hx
  simp only [bind_eq_ok] at hx
  obtain ⟨-, -, m, hm, hx⟩ := hx
  cases hx
  have dependent : m.folds = (value.isArray && value.texts.isEmpty) := by
    cases value with
    | array items =>
      simp only [Node.dependencyMeaning, bind_eq_ok] at hm
      obtain ⟨names, hn, hm⟩ := hm
      cases hm
      rw [Meaning.folds_conj, folds_owns, expectStrings_ok hn]
      rfl
    | _ => exact h _ m hm
  simp [dependent]

variable [Pattern.Engines]

theorem keyMatching_firm {source : String} {m : Meaning (Option Json × Option Json)}
    (h : n.keyMatching source = .ok m) : m.folds = false ∧ m.negate.folds = false := by
  simp only [Node.keyMatching, bind_eq_ok] at h
  obtain ⟨p, -, h⟩ := h
  cases h
  exact ⟨rfl, rfl⟩

theorem folds_patternProperties (h : interpret.Firm)
    (hd : n.patternPropertyDemands interpret = .ok ms) :
    ms.all Meaning.folds = (n.value == .object []) := by
  simp only [Node.patternPropertyDemands, bind_eq_ok] at hd
  obtain ⟨patterns, hp, clauses, hc, hd⟩ := hd
  cases hd
  have each : clauses.all Meaning.folds = patterns.all fun _ => false := by
    refine all_mapM hc ?_
    rintro ⟨source, schema⟩ - x hx
    simp only [bind_eq_ok] at hx
    obtain ⟨key, hk, m, hm, hx⟩ := hx
    cases hx
    simp [h schema m hm, (keyMatching_firm hk).2]
  rw [expectObject_ok hp]
  simp only [List.all_cons, List.all_nil, Bool.and_true, Meaning.folds_everyKey,
    Meaning.folds_conj, each]
  cases patterns <;> simp

theorem folds_additionalProperties (h : interpret.Firm)
    (hd : n.additionalPropertyDemands interpret = .ok ms) : ms.all Meaning.folds = false := by
  simp only [Node.additionalPropertyDemands, bind_eq_ok] at hd
  obtain ⟨matched, hmatched, m, hm, hd⟩ := hd
  cases hd
  have tests : matched.any Meaning.folds = false := by
    have each : ∀ key ∈ matched, key.folds = false :=
      forall_mapM hmatched fun source _ key hk => (keyMatching_firm hk).1
    simpa using each
  have spare : m.folds = false := by
    rw [Node.spareMeaning.eq_def] at hm
    split at hm
    · cases hm
      rfl
    · exact h _ m hm
  simp only [List.all_cons, List.all_nil, Bool.and_true, Meaning.folds_everyKey,
    Meaning.folds_disj, List.any_append, tests, List.any_cons, List.any_nil, Meaning.folds_along,
    spare, List.any_map]
  simp [Function.comp_def]

/-- What a keyword asks for folds to `true` altogether if it is idle: the schemas inside it do not
fold to `true`. -/
theorem folds_demands (h : interpret.Firm) (k : Keyword)
    (hk : k ∉ [.type, .anyOf, .oneOf, .allOf, .not]) (hd : k.demands interpret n = .ok ms) :
    ms.all Meaning.folds = k.idle n := by
  cases k with
  | type | anyOf | oneOf | allOf | not => simp at hk
  | minLength | minItems | minProperties => exact folds_least hd
  | items => exact folds_items h hd
  | prefixItems => exact folds_positions h hd
  | additionalItems => exact folds_additionalItems h hd
  | contains => exact folds_contains hd
  | minContains | maxContains => exact folds_containsBound hd
  | required => exact folds_required hd
  | properties => exact folds_properties h hd
  | patternProperties => exact folds_patternProperties h hd
  | additionalProperties => exact folds_additionalProperties h hd
  | dependencies | dependentRequired | dependentSchemas =>
    rw [Keyword.demands] at hd
    exact folds_dependencies h hd
  | const =>
    cases hd
    rfl
  | maxLength | maxItems | maxProperties | minimum | maximum | exclusiveMinimum
  | exclusiveMaximum =>
    obtain ⟨limit, -, hd⟩ := bind_eq_ok.mp hd
    cases hd
    rfl
  | propertyNames =>
    obtain ⟨m, hm, hd⟩ := bind_eq_ok.mp hd
    cases hd
    simp [h _ m hm, Keyword.idle]
  | enum =>
    obtain ⟨items, -, hd⟩ := bind_eq_ok.mp hd
    split at hd
    · cases hd
      rfl
    · cases hd
      simp [Keyword.idle, Meaning.equalTo]
  | pattern =>
    simp only [Keyword.demands, Node.patternDemands] at hd
    split at hd
    · obtain ⟨p, -, hd⟩ := bind_eq_ok.mp hd
      cases hd
      rfl
    · cases hd
  | multipleOf =>
    obtain ⟨x, -, hd⟩ := bind_eq_ok.mp hd
    split at hd
    · cases hd
      rfl
    · cases hd
  | uniqueItems =>
    simp only [Keyword.demands, Node.uniqueDemands] at hd
    split at hd
    · next hv =>
      cases hd
      simp [Keyword.idle, hv]
    · next hv =>
      cases hd
      simp [Keyword.idle, hv]
    · cases hd
  | custom c =>
    simp only [Keyword.demands, Node.customDemands] at hd
    split at hd
    · cases hd
      rfl
    · cases hd

end Idle

end SchemaLogic
