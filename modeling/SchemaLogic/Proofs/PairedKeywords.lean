import SchemaLogic.Proofs.KeywordMeaning
import SchemaLogic.Proofs.Pairing

/-! # Keywords read twice

Where the schemas inside a keyword mean the same for related values, so does the keyword. One of
them counts on another: `properties` leaves it to `required` to refuse an object without a listed
member, and then it may judge such objects in either way. -/
namespace SchemaLogic

/-! ## Related parts -/

namespace Pairing

variable {p : Pairing} {i j : Option Json}

def Visited (p : Pairing) (a b : Option Json × Option Json) : Prop :=
  p.Related a.1 b.1 ∧ p.Related a.2 b.2

/-- A schema means the same to both sides. -/
def Reads (p : Pairing) (f g : Interpret) (schema : Json) : Prop :=
  Agree Eq (Twin p.exact p.Related) (f schema) (g schema)

theorem asked_arrays (hp : p.Lawful) (h : p.Asked .arrays i j) : ∃ items items',
    i = some (.array items) ∧ j = some (.array items') ∧ List.Forall₂ p.alike items items' := by
  obtain ⟨hij, hi⟩ := h
  cases hij with
  | missing _ => cases hi
  | @value v w hvw =>
    have parts := hp.items hvw
    cases v with
    | array items =>
      cases w with
      | array items' =>
        cases parts with
        | some h => exact ⟨items, items', rfl, rfl, h⟩
      | _ => cases parts
    | _ => cases hi

theorem asked_objects (hp : p.Lawful) (h : p.Asked .objects i j) : ∃ v w l l',
    i = some v ∧ j = some w ∧ v.visits = some l ∧ w.visits = some l' ∧
      List.Forall₂ p.Visited l l' := by
  obtain ⟨hij, hi⟩ := h
  cases hij with
  | missing _ => cases hi
  | @value v w hvw =>
    have parts := hp.visits hvw
    obtain ⟨entries, he⟩ := Option.isSome_iff_exists.mp hi
    have hv : v.visits = some _ := congrArg (Option.map _) he
    rw [hv] at parts
    cases hw : w.visits with
    | none =>
      rw [hw] at parts
      cases parts
    | some l' =>
      rw [hw] at parts
      cases parts with
      | some h => exact ⟨v, w, _, l', rfl, rfl, hv, hw, h⟩

theorem entry_related (hp : p.Lawful) (h : p.Related i j) (name : String) :
    Option.Rel p.alike (entryOf i name) (entryOf j name) := by
  cases h with
  | value hvw => exact hp.entry hvw name
  | missing _ => exact .none

theorem isSome_eq {a b : Option Json} (h : Option.Rel p.alike a b) : a.isSome = b.isSome := by
  cases h <;> rfl

theorem related_of_isSome {a b : Option Json} (h : Option.Rel p.alike a b)
    (ha : p.exact ∨ a.isSome = true) : p.Related a b := by
  cases h with
  | some h => exact .value h
  | none =>
    rcases ha with he | hs
    · exact .missing he
    · cases hs

theorem text_related (hp : p.Lawful) (h : p.Related i j) :
    (Instance.ofOption i).text? = (Instance.ofOption j).text? := by
  have text (v : Json) : (Instance.value v).text? = v.string? := by cases v <;> rfl
  cases h with
  | @value v w hvw => exact (text v).trans ((hp.text hvw).trans (text w).symm)
  | missing _ => rfl

end Pairing

section Loops

variable {p : Pairing} {m m' : Meaning (Option Json)}

theorem map_alike (hm : Twin p.exact p.Related m m') {items items' : List Json}
    (h : List.Forall₂ p.alike items items') :
    items.map (fun x => m.holds (some x)) = items'.map fun x => m'.holds (some x) := by
  induction h with
  | nil => rfl
  | cons hxy _ ih => rw [List.map_cons, List.map_cons, hm.holds _ _ (.value hxy), ih]

theorem all_alike (hm : Twin p.exact p.Related m m') {items items' : List Json}
    (h : List.Forall₂ p.alike items items') :
    (items.all fun x => m.holds (some x)) = items'.all fun x => m'.holds (some x) := by
  simpa [Function.comp_def] using congrArg (·.all id) (map_alike hm h)

theorem twin_everyItem (hp : p.Lawful) (hm : Twin p.exact p.Related m m') :
    Twin p.exact (p.Asked .arrays) m.everyItem m'.everyItem := by
  constructor
  · intro i j hij
    obtain ⟨items, items', rfl, rfl, h⟩ := p.asked_arrays hp hij
    rw [Meaning.holds_everyItem, Meaning.holds_everyItem, all_alike hm h]
  · intro he
    simp only [Meaning.everyItem, Meaning.looped, Meaning.const?_known, hm.const? he]

theorem twin_someItem (hp : p.Lawful) (hm : Twin p.exact p.Related m m') :
    Twin p.exact (p.Asked .arrays) m.someItem m'.someItem := by
  constructor
  · intro i j hij
    obtain ⟨items, items', rfl, rfl, h⟩ := p.asked_arrays hp hij
    rw [Meaning.holds_someItem, Meaning.holds_someItem]
    simpa [Function.comp_def] using congrArg (·.any id) (map_alike hm h)
  · intro he
    simp only [Meaning.someItem, Meaning.looped, Meaning.const?_known, hm.const? he]

theorem holds_visits (m : Meaning (Option Json × Option Json)) {v : Json}
    {l : List (Option Json × Option Json)} (h : v.visits = some l) :
    m.everyKey.holds (some v) = l.all m.holds := by
  obtain ⟨entries, he, rfl⟩ := Option.map_eq_some_iff.mp h
  rw [Meaning.everyKey, Meaning.looped, Meaning.holds_known]
  split
  · next hc => simp [Meaning.holds_of_const? hc]
  · simp [he, List.all_map, Function.comp_def]

theorem twin_everyKey (hp : p.Lawful) {m m' : Meaning (Option Json × Option Json)}
    (hm : Twin p.exact p.Visited m m') :
    Twin p.exact (p.Asked .objects) m.everyKey m'.everyKey := by
  constructor
  · intro i j hij
    obtain ⟨v, w, l, l', rfl, rfl, hv, hw, h⟩ := p.asked_objects hp hij
    rw [holds_visits m hv, holds_visits m' hw]
    clear hv hw hij
    induction h with
    | nil => rfl
    | cons hab _ ih => rw [List.all_cons, List.all_cons, hm.holds _ _ hab, ih]
  · intro he
    simp only [Meaning.everyKey, Meaning.looped, Meaning.const?_known, hm.const? he]

end Loops

def Node.given (n : Node) (o : Options) : Node := { n with options := o }

/-! ## Keywords about the items of an array -/

section Items

variable {p : Pairing} {f g : Interpret} {n : Node}

theorem twin_size (hp : p.Lawful) (op : CmpOp) (limit : Nat) :
    Twin p.exact (p.Asked .arrays) (.size .items op limit) (.size .items op limit) := by
  refine .test fun i j hij => ?_
  obtain ⟨items, items', rfl, rfl, h⟩ := p.asked_arrays hp hij
  simp [Instance.measure?, Instance.items?, h.length_eq]

theorem agree_tuple (hp : p.Lawful) {schemas : List Json}
    (h : ∀ schema ∈ schemas, p.Reads f g schema) (start : Nat) :
    Agree Eq (Twins p.exact (p.Asked .arrays)) (Node.tupleDemands f start schemas)
      (Node.tupleDemands g start schemas) := by
  refine Agree.mono (agree_mapM fun entry he => ?_) fun _ _ => Twins.of_forall₂
  refine (h entry.1 (List.fst_mem_of_mem_zipIdx he)).bind fun m m' hm => .ok ?_
  refine Twin.either (twin_size hp .le entry.2) (hm.along ?_)
  rintro i j ⟨hij, hlong⟩
  obtain ⟨items, items', rfl, rfl, hitems⟩ := p.asked_arrays hp hij
  rw [holds_mostItems, decide_eq_false_iff_not, Nat.not_le] at hlong
  have hlong' : entry.2 < items'.length := hitems.length_eq ▸ hlong
  have hat := hitems.get hlong hlong'
  simp only [Instance.ofOption_some, Instance.items?, Option.bind_some,
    List.getElem?_eq_getElem hlong, List.getElem?_eq_getElem hlong']
  exact .value hat

def restMeanings (start : Nat) (m : Meaning (Option Json)) : List (Meaning (Option Json)) :=
  if m.const? = some true then [] else [.look fun i => i.items?.any fun items =>
    (items.drop start).all fun x => m.holds (some x)]

theorem all_restMeanings (start : Nat) (m : Meaning (Option Json)) (items : List Json) :
    (restMeanings start m).all (·.holds (some (.array items))) =
      (items.drop start).all fun x => m.holds (some x) := by
  rw [restMeanings]
  split
  · next hc => simp [Meaning.holds_of_const? hc]
  · simp [Instance.items?]

theorem twins_rest (hp : p.Lawful) {m m' : Meaning (Option Json)}
    (hm : Twin p.exact p.Related m m') (start : Nat) :
    Twins p.exact (p.Asked .arrays) (restMeanings start m) (restMeanings start m') := by
  constructor
  · intro i j hij
    obtain ⟨items, items', rfl, rfl, hitems⟩ := p.asked_arrays hp hij
    rw [all_restMeanings, all_restMeanings, all_alike hm (List.forall₂_drop start hitems)]
  · intro he
    rw [restMeanings, restMeanings, hm.const? he]
    split <;> rfl

theorem agree_rest (hp : p.Lawful) {schema : Json} (h : p.Reads f g schema) (start : Nat) :
    Agree Eq (Twins p.exact (p.Asked .arrays)) (Node.restDemands f schema start)
      (Node.restDemands g schema start) := by
  rw [Node.restDemands, Node.restDemands]
  split
  · exact .ok (.singleton (twin_size hp .le start))
  · refine h.bind fun m m' hm => ?_
    by_cases hs : start = 0
    · rw [if_pos hs, if_pos hs]
      exact .ok (.singleton (twin_everyItem hp hm))
    · rw [if_neg hs, if_neg hs, ← apply_ite pure, ← apply_ite pure]
      exact .ok (twins_rest hp hm start)

theorem agree_items (hp : p.Lawful)
    (h : ∀ part ∈ Keyword.items.parts n.value, p.Reads f g part) :
    Agree Eq (Twins p.exact (p.Asked .arrays)) ((n.given p.left).itemsDemands f)
      ((n.given p.right).itemsDemands g) := by
  obtain ⟨options, table, members, value, ref⟩ := n
  cases value with
  | array schemas => exact agree_tuple hp h 0
  | _ => exact agree_rest hp (h _ (.head _)) _

theorem agree_positions (hp : p.Lawful)
    (h : ∀ part ∈ Keyword.prefixItems.parts n.value, p.Reads f g part) :
    Agree Eq (Twins p.exact (p.Asked .arrays)) ((n.given p.left).positionDemands f)
      ((n.given p.right).positionDemands g) := by
  refine Agree.share (expectArray "prefixItems" n.value) fun schemas hs => ?_
  rw [expectArray_ok hs] at h
  exact agree_tuple hp h 0

theorem agree_additionalItems (hp : p.Lawful) (h : p.Reads f g n.value) :
    Agree Eq (Twins p.exact (p.Asked .arrays)) ((n.given p.left).additionalItemsDemands f)
      ((n.given p.right).additionalItemsDemands g) := by
  have sibling (o : Options) : (n.given o).sibling? "items" = n.sibling? "items" := rfl
  rw [Node.additionalItemsDemands, Node.additionalItemsDemands, sibling, sibling]
  split
  · exact agree_rest hp h _
  · exact .ok .nil

theorem agree_contains (hp : p.Lawful) (h : p.Reads f g n.value) :
    Agree Eq (Twins p.exact (p.Asked .arrays)) ((n.given p.left).containsDemands f)
      ((n.given p.right).containsDemands g) := by
  refine Agree.share (n.containsBound "minContains") fun least _ => ?_
  refine Agree.share (n.containsBound "maxContains") fun most _ => ?_
  refine h.bind fun m m' hm => ?_
  split
  · exact .ok (.singleton (twin_someItem hp hm))
  · split
    · exact .ok .nil
    · refine .ok (.singleton (.test fun i j hij => ?_))
      obtain ⟨items, items', rfl, rfl, hitems⟩ := p.asked_arrays hp hij
      have count := congrArg (·.countP id) (map_alike hm hitems)
      rw [List.countP_map, List.countP_map] at count
      exact congrArg (Routine.within (least.getD 1) most) count

end Items

/-! ## Keywords about the members of an object -/

def Node.Supplied (n : Node) (i : Option Json) : Prop :=
  ∀ name ∈ n.requiredNames, (entryOf i name).isSome = true

/-- What the conditions of a keyword are asked about. Where missing values are not compared,
`properties` says nothing of an object without a required member. -/
def Pairing.Served (p : Pairing) (n : Node) : Domain := fun b i j =>
  p.Asked b i j ∧ (b = .objects → p.exact ∨ (n.table.Relies → n.Supplied i))

section Members

variable {p : Pairing} {f g : Interpret} {n : Node}

theorem twin_owns (hp : p.Lawful) (n : Node) (name : String) :
    Twin p.exact p.Related ((n.given p.left).owns name) ((n.given p.right).owns name) := by
  constructor
  · intro i j hij
    rw [Node.holds_owns_entry, Node.holds_owns_entry]
    exact p.isSome_eq (p.entry_related hp hij name)
  · intro _
    have test (n : Node) : (n.owns name).const? = none := by
      rw [Node.owns]
      split <;> rfl
    rw [test, test]

theorem twins_owns (hp : p.Lawful) (n : Node) (names : List String) :
    Twins p.exact p.Related (names.map (n.given p.left).owns)
      (names.map (n.given p.right).owns) := by
  apply Twins.of_forall₂
  rw [List.forall₂_map_left_iff, List.forall₂_map_right_iff, List.forall₂_same]
  intro name _
  exact twin_owns hp n name

theorem agree_required (hp : p.Lawful) : Agree Eq (Twins p.exact (p.Asked .objects))
    (n.given p.left).requiredDemands (n.given p.right).requiredDemands := by
  refine Agree.share (expectStrings "required" n.value) fun names _ => .ok ?_
  exact (twins_owns hp n names).mono fun _ _ hij => hij.1

/-- A member is compared where both values have it, or where missing ones are compared. -/
theorem agree_properties (hp : p.Lawful) (hr : n.table.Relies)
    (h : ∀ part ∈ Keyword.properties.parts n.value, p.Reads f g part) :
    Agree Eq (Twins p.exact (p.Served n .objects)) ((n.given p.left).propertyDemands f)
      ((n.given p.right).propertyDemands g) := by
  refine Agree.share (expectObject "properties" n.value) fun properties hv => ?_
  rw [expectObject_ok hv] at h
  refine Agree.mono (agree_mapM fun entry he => ?_) fun _ _ => Twins.of_forall₂
  refine Agree.bind (h entry.2 (List.mem_map_of_mem he)) fun m m' hm => .ok ?_
  change Twin _ _ (if n.requiredNames.contains entry.1 = true then _ else _)
    (if n.requiredNames.contains entry.1 = true then _ else _)
  by_cases hreq : n.requiredNames.contains entry.1 = true
  · rw [if_pos hreq, if_pos hreq]
    refine hm.along fun i j hij => ?_
    refine p.related_of_isSome (p.entry_related hp hij.1.1 entry.1) ?_
    rcases hij.2 rfl with hexact | hsupplied
    · exact .inl hexact
    · exact .inr (hsupplied hr entry.1 (by simpa using hreq))
  · rw [if_neg hreq, if_neg hreq]
    have owns : Twin p.exact (p.Served n .objects) ((n.given p.left).owns entry.1).negate
        ((n.given p.right).owns entry.1).negate :=
      (twin_owns hp n entry.1).negate.mono fun _ _ hij => hij.1.1
    refine Twin.either owns (hm.along ?_)
    rintro i j ⟨hij, hown⟩
    rw [Meaning.holds_negate, Node.holds_owns_entry, Bool.not_eq_false'] at hown
    exact p.related_of_isSome (p.entry_related hp hij.1.1 entry.1) (.inr hown)

theorem agree_keyMatching [Pattern.Engines] (hp : p.Lawful) (n : Node) (source : String) :
    Agree Eq (Twin p.exact p.Visited) ((n.given p.left).keyMatching source)
      ((n.given p.right).keyMatching source) := by
  change Agree Eq _ (patternOf p.left.unicodeAwareRegex source >>= _)
    (patternOf p.right.unicodeAwareRegex source >>= _)
  rw [hp.unicode]
  refine Agree.share _ fun pattern _ => .ok ?_
  refine Twin.along (P := p.Related) (.test fun i j hij => ?_) fun _ _ hab => hab.1
  exact congrArg (·.any pattern.isMatch) (p.text_related hp hij)

theorem agree_patternProperties [Pattern.Engines] (hp : p.Lawful)
    (h : ∀ part ∈ Keyword.patternProperties.parts n.value, p.Reads f g part) :
    Agree Eq (Twins p.exact (p.Asked .objects)) ((n.given p.left).patternPropertyDemands f)
      ((n.given p.right).patternPropertyDemands g) := by
  refine Agree.share (expectObject "patternProperties" n.value) fun patterns hv => ?_
  rw [expectObject_ok hv] at h
  refine Agree.bind (agree_mapM fun entry he => ?_) fun clauses clauses' hc =>
    .ok (.singleton (twin_everyKey hp (Twins.of_forall₂ hc).conj))
  refine (agree_keyMatching hp n entry.1).bind fun key key' hkey => ?_
  refine Agree.bind (h entry.2 (List.mem_map_of_mem he)) fun m m' hm => .ok ?_
  exact .disj (.cons hkey.negate (.cons (hm.along fun _ _ hab => hab.2) .nil))

theorem agree_spareMeaning {schema : Json} (h : p.Reads f g schema) :
    Agree Eq (Twin p.exact p.Related) (Node.spareMeaning f schema)
      (Node.spareMeaning g schema) := by
  rw [Node.spareMeaning.eq_def, Node.spareMeaning.eq_def]
  split
  · exact .ok (.const false)
  · exact h

theorem agree_additionalProperties [Pattern.Engines] (hp : p.Lawful) (h : p.Reads f g n.value) :
    Agree Eq (Twins p.exact (p.Asked .objects)) ((n.given p.left).additionalPropertyDemands f)
      ((n.given p.right).additionalPropertyDemands g) := by
  have matched := agree_mapM (l := (n.siblingMembers "patternProperties").map Prod.fst)
    fun source _ => agree_keyMatching hp n source
  refine matched.bind fun tests tests' htests => ?_
  refine (agree_spareMeaning h).bind fun m m' hm => .ok (.singleton (twin_everyKey hp ?_))
  refine .disj (List.rel_append (List.rel_append ?_ htests)
    (.cons (hm.along fun _ _ hab => hab.2) .nil))
  change List.Forall₂ _ ((n.siblingMembers "properties").map _)
    ((n.siblingMembers "properties").map _)
  rw [List.forall₂_map_left_iff, List.forall₂_map_right_iff, List.forall₂_same]
  intro entry _
  refine Twin.along (P := p.Related) (.test fun i j hij => ?_) fun _ _ hab => hab.1
  simp only [Instance.equalsScalar, p.text_related hp hij]

theorem agree_propertyNames (hp : p.Lawful) (h : p.Reads f g n.value) :
    Agree Eq (Twins p.exact (p.Asked .objects)) ((n.given p.left).propertyNameDemands f)
      ((n.given p.right).propertyNameDemands g) :=
  h.bind fun _ _ hm => .ok (.singleton (twin_everyKey hp (hm.along fun _ _ hab => hab.1)))

theorem agree_dependencies (hp : p.Lawful) (keyword : String)
    (check : Json → Except CompileError Unit)
    (h : ∀ entry ∈ n.value.fields, check entry.2 = .ok () →
      entry.2.isArray = true ∨ p.Reads f g entry.2) :
    Agree Eq (Twins p.exact (p.Asked .objects))
      ((n.given p.left).dependencyDemands f keyword check)
      ((n.given p.right).dependencyDemands g keyword check) := by
  refine Agree.share (expectObject keyword n.value) fun triggers hv => ?_
  rw [expectObject_ok hv] at h
  refine Agree.mono (agree_mapM fun entry he => ?_) fun _ _ => Twins.of_forall₂
  refine Agree.share (check entry.2) fun _ hcheck => ?_
  have asks : Agree Eq (Twin p.exact p.Related)
      ((n.given p.left).dependencyMeaning f keyword entry.2)
      ((n.given p.right).dependencyMeaning g keyword entry.2) := by
    have part := h entry he hcheck
    cases hval : entry.2 with
    | array items =>
      refine Agree.share (expectStrings keyword (.array items)) fun names _ => .ok ?_
      exact (twins_owns hp n names).conj
    | _ =>
      rw [hval] at part
      rcases part with hfalse | hreads
      · cases hfalse
      · exact hreads
  refine asks.bind fun m m' hm => .ok ?_
  have either := Twin.disj (.cons (twin_owns hp n entry.1).negate (.cons hm .nil))
  exact either.mono fun _ _ hij => hij.1

end Members

end SchemaLogic
