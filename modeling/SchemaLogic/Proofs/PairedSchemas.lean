import SchemaLogic.Proofs.Correctness
import SchemaLogic.Proofs.PairedKeywords

/-! # Schemas read twice

Related values are judged alike by a whole schema, if the keywords that look at a value by
themselves judge them alike. Where missing values are not compared, a table that knows `properties`
has to know `required`. -/
namespace SchemaLogic

/-- Keywords that look at a value by themselves: they ask no schema, and do not ask which members it
has. -/
def Keyword.asserts : Keyword → Bool
  | .enum | .const | .minLength | .maxLength | .pattern | .multipleOf | .minimum | .maximum
  | .exclusiveMinimum | .exclusiveMaximum | .minItems | .maxItems | .uniqueItems | .minContains
  | .maxContains | .minProperties | .maxProperties | .custom _ => true
  | _ => false

namespace Pairing

/-- A keyword that looks at a value by itself judges related values alike. -/
def Asserts [Pattern.Engines] (p : Pairing) (k : Keyword) (n : Node) : Prop :=
  ∀ f g, Agree Eq (Twins p.exact (p.Asked k.bucket)) (k.demands f (n.given p.left))
    (k.demands g (n.given p.right))

/-- A schema makes twins of twin readings, on any part of what readings are asked about. -/
def Enriches (p : Pairing) (f g : Enrich) (schema : Json) : Prop :=
  ∀ D : Domain, (∀ b i j, D b i j → p.Asked b i j) → ∀ s s', s.Twin p.exact D s' →
    Agree Eq (Reading.Twin p.exact D) (f schema s) (g schema s')

theorem Enriches.reads {p : Pairing} (hp : p.Lawful) {f g : Enrich} {schema : Json}
    (h : p.Enriches f g schema) : p.Reads (f.interpret p.left) (g.interpret p.right) schema :=
  agree_interpret hp (h p.Asked (fun _ _ _ hij => hij) {} {} .bare)

end Pairing

/-! ## One keyword -/

section Keywords

variable {p : Pairing} {n : Node}

theorem agree_demands [Pattern.Engines] (hp : p.Lawful) {f g : Interpret} (k : Keyword)
    (hk : k.asserts = true → p.Asserts k n) (hr : k = .properties → n.table.Relies)
    (h : ∀ part ∈ k.parts n.value, p.Reads f g part) :
    Agree Eq (Twins p.exact (p.Served n k.bucket)) (k.demands f (n.given p.left))
      (k.demands g (n.given p.right)) := by
  have served {b : Bucket} {x y : Demands} (hxy : Agree Eq (Twins p.exact (p.Asked b)) x y) :
      Agree Eq (Twins p.exact (p.Served n b)) x y :=
    hxy.mono fun _ _ hms => hms.mono fun _ _ hij => hij.1
  have fields : ∀ entry ∈ n.value.fields,
      entry.2 ∈ (n.value.members?.getD []).map Prod.snd := by
    intro entry he
    exact List.mem_map_of_mem he
  cases k with
  | type | anyOf | oneOf | allOf => exact .ok .nil
  | items => exact served (agree_items hp h)
  | prefixItems => exact served (agree_positions hp h)
  | additionalItems => exact served (agree_additionalItems hp (h _ (.head _)))
  | contains => exact served (agree_contains hp (h _ (.head _)))
  | propertyNames => exact served (agree_propertyNames hp (h _ (.head _)))
  | required => exact served (agree_required hp)
  | properties => exact agree_properties hp (hr rfl) h
  | patternProperties => exact served (agree_patternProperties hp h)
  | additionalProperties => exact served (agree_additionalProperties hp (h _ (.head _)))
  | dependencies =>
    refine served (agree_dependencies hp "dependencies" (fun _ => .ok ()) fun entry he _ => ?_)
    exact .inr (h entry.2 (fields entry he))
  | dependentSchemas =>
    refine served (agree_dependencies hp "dependentSchemas" Node.checkSchema fun entry he _ => ?_)
    exact .inr (h entry.2 (fields entry he))
  | dependentRequired =>
    refine served (agree_dependencies hp "dependentRequired" Node.checkNames
      fun entry _ hcheck => ?_)
    rw [Node.checkNames] at hcheck
    split at hcheck
    · next harray => exact .inl harray
    · cases hcheck
  | not =>
    refine served (Agree.bind (h _ (.head _)) fun m m' hm => .ok (.singleton ?_))
    exact hm.negate.mono fun _ _ hij => hij.1
  | _ => exact served (hk rfl _ _)

theorem agree_branches (hp : p.Lawful) {f g : Enrich} {schemas : List Json}
    (h : ∀ schema ∈ schemas, p.Enriches f g schema) {D : Domain} {s s' : Reading}
    (hs : s.Twin p.exact D s') : Agree Eq (List.Forall₂ (Twin p.exact p.Related))
      ((n.given p.left).branchMeanings f s schemas)
      ((n.given p.right).branchMeanings g s' schemas) := by
  refine agree_mapM fun schema hschema => ?_
  have branch := h schema hschema p.Asked (fun _ _ _ hij => hij) s.fork s'.fork (hs.fork p.Asked)
  exact branch.bind fun t t' ht => .ok (twin_finalize hp ht)

theorem agree_enrich [Pattern.Engines] (hp : p.Lawful) {f g : Enrich} (k : Keyword)
    (hk : k.asserts = true → p.Asserts k n) (hr : k = .properties → n.table.Relies)
    (h : ∀ part ∈ k.parts n.value, p.Enriches f g part) {D : Domain}
    (hD : ∀ b i j, D b i j → p.Served n b i j) {s s' : Reading} (hs : s.Twin p.exact D s') :
    Agree Eq (Reading.Twin p.exact D) (k.enrich f (n.given p.left) s)
      (k.enrich g (n.given p.right) s') := by
  have demands := agree_demands hp k hk hr fun part hpart => (h part hpart).reads hp
  have always {m m' : Meaning (Option Json)} (hm : Twin p.exact p.Related m m') :
      Twin p.exact (D .always) m m' :=
    hm.mono fun i j hij => (hD .always i j hij).1.1
  cases k with
  | type => exact Agree.share (Node.declaredTypes n.value) fun types _ => .ok (hs.declare types)
  | anyOf =>
    refine Agree.share (expectNonEmptyArray "anyOf" n.value) fun schemas hv => ?_
    rw [← items_of_nonEmptyArray hv]
    exact (agree_branches hp h hs).bind fun ms ms' hms => .ok (hs.push (always (.disj hms)))
  | oneOf =>
    refine Agree.share (expectNonEmptyArray "oneOf" n.value) fun schemas hv => ?_
    rw [← items_of_nonEmptyArray hv]
    exact (agree_branches hp h hs).bind fun ms ms' hms => .ok (hs.push (always (.one hms)))
  | allOf =>
    refine Agree.share (expectNonEmptyArray "allOf" n.value) fun schemas hv => ?_
    rw [← items_of_nonEmptyArray hv]
    refine agree_foldlM (fun schema hschema t t' ht => ?_) hs
    exact h schema hschema D (fun b i j hij => (hD b i j hij).1) t t' ht
  | _ =>
    refine demands.bind fun ms ms' hms => .ok (hs.pushAll ?_)
    exact hms.mono (hD _)

end Keywords

/-! ## Objects that lack a required member -/

def Narrows (run : Reading → Except CompileError Reading) : Prop :=
  ∀ s t, run s = .ok t → ∀ b i, (t.conditions b).all (·.holds i) = true →
    (s.conditions b).all (·.holds i) = true

section Narrows

variable {enrich : Enrich}

theorem narrows_pushAll (s : Reading) (b : Bucket) (ms : List (Meaning (Option Json)))
    (c : Bucket) (i : Option Json) (h : ((s.pushAll b ms).conditions c).all (·.holds i) = true) :
    (s.conditions c).all (·.holds i) = true := by
  rw [Reading.all_pushAll] at h
  exact (Bool.and_eq_true_iff.mp h).1

theorem narrows_foldlM {α : Type} {step : Reading → α → Except CompileError Reading} {l : List α}
    (h : ∀ a ∈ l, Narrows (step · a)) : Narrows (l.foldlM step) := by
  induction l with
  | nil =>
    intro s t ht b i hb
    cases ht
    exact hb
  | cons a l ih =>
    intro s t ht b i hb
    simp only [List.foldlM_cons, bind_eq_ok] at ht
    obtain ⟨mid, hmid, ht⟩ := ht
    have later := ih (fun c hc => h c (.tail _ hc)) mid t ht b i hb
    exact h a (by simp) s mid hmid b i later

theorem foldlM_refuses {α : Type} {step : Reading → α → Except CompileError Reading} {l : List α}
    (h : ∀ a ∈ l, Narrows (step · a)) {a : α} (ha : a ∈ l) {b : Bucket} {i : Option Json}
    (hrefuse : ∀ s t, step s a = .ok t → (t.conditions b).all (·.holds i) = false)
    {s t : Reading} (ht : l.foldlM step s = .ok t) :
    (t.conditions b).all (·.holds i) = false := by
  induction l generalizing s with
  | nil => cases ha
  | cons c l ih =>
    rw [List.foldlM_cons, bind_eq_ok] at ht
    obtain ⟨mid, hmid, ht⟩ := ht
    have rest : ∀ d ∈ l, Narrows (step · d) := fun d hd => h d (.tail _ hd)
    rcases List.mem_cons.mp ha with rfl | ha
    · rw [← Bool.not_eq_true]
      intro hb
      have held := narrows_foldlM rest mid t ht b i hb
      rw [hrefuse s mid hmid] at held
      cases held
    · exact ih rest ha ht

variable [Pattern.Engines]

theorem narrows_enrich (h : ∀ sub, Narrows (enrich sub)) (k : Keyword) (n : Node) :
    Narrows (k.enrich enrich n) := by
  intro s t ht b i hb
  cases k with
  | type =>
    simp only [Keyword.enrich, bind_eq_ok] at ht
    obtain ⟨types, -, ht⟩ := ht
    cases ht
    exact hb
  | anyOf | oneOf =>
    simp only [Keyword.enrich, bind_eq_ok] at ht
    obtain ⟨schemas, -, ms, -, ht⟩ := ht
    cases ht
    exact narrows_pushAll s .always [_] b i hb
  | allOf =>
    simp only [Keyword.enrich, bind_eq_ok] at ht
    obtain ⟨schemas, -, ht⟩ := ht
    exact narrows_foldlM (fun schema _ => h schema) s t ht b i hb
  | _ =>
    simp only [Keyword.enrich, bind_eq_ok] at ht
    obtain ⟨ms, -, ht⟩ := ht
    cases ht
    exact narrows_pushAll s _ ms b i hb

theorem narrows_member (h : ∀ sub, Narrows (enrich sub)) (o : Options) (table : Table)
    (members : Json.Members) (pass : Pass) (member : String × Json) :
    Narrows (enrichMember enrich o table members pass · member) := by
  intro s t ht
  simp only [enrichMember] at ht
  split at ht
  · exact narrows_enrich h _ _ s t ht
  · cases ht
    exact fun _ _ hb => hb

theorem narrows_enrichAt (o : Options) (table : Table) (fuel : Nat) (schema : Json) :
    Narrows (enrichAt o table fuel schema) := by
  induction fuel generalizing schema with
  | zero =>
    intro s t ht
    cases ht
  | succ fuel ih =>
    intro s t ht b i hb
    cases schema with
    | object members =>
      exact narrows_foldlM (fun pass _ => narrows_foldlM fun member _ =>
        narrows_member ih o table members pass member) s t ht b i hb
    | bool value =>
      cases value with
      | true =>
        cases ht
        exact hb
      | false =>
        cases ht
        exact narrows_pushAll s .always [.look fun i => !i.isPresent] b i hb
    | _ => cases ht

/-- An object that lacks a required member is refused, if the table knows `required`. -/
theorem required_refuses (h : ∀ sub, Narrows (enrich sub)) {o : Options} {n : Node}
    (hreq : n.table.Requires) {s t : Reading}
    (ht : enrichPasses enrich o n.table n.members n.table s = .ok t) {i : Option Json}
    (hi : ¬n.Supplied i) : (t.conditions .objects).all (·.holds i) = false := by
  obtain ⟨pass, hpass, hget⟩ := hreq
  obtain ⟨name, hname, hlacks⟩ : ∃ name ∈ n.requiredNames, (entryOf i name).isSome = false := by
    simpa [Node.Supplied] using hi
  obtain ⟨names, hs, hmem⟩ : ∃ names, n.sibling? "required" = some (.array names) ∧
      name ∈ (Json.array names).texts := by
    rw [Node.requiredNames] at hname
    split at hname
    · next names hs => exact ⟨names, hs, hname⟩
    · cases hname
  have narrows (pass : Pass) (member : String × Json) :=
    narrows_member h o n.table n.members pass member
  refine foldlM_refuses (fun pass _ => narrows_foldlM fun member _ => narrows pass member) hpass
    (fun s t ht => ?_) ht
  refine foldlM_refuses (fun member _ => narrows pass member) (Json.mem_of_lookup hs)
    (fun s t ht => ?_) ht
  -- Here the member `required` itself is read.
  simp only [enrichMember, hget, Keyword.enrich, Keyword.demands, Node.requiredDemands,
    bind_eq_ok] at ht
  obtain ⟨ms, ⟨texts, htexts, hms⟩, ht⟩ := ht
  cases hms
  cases ht
  rw [expectStrings_ok htexts] at hmem
  have refused : (texts.map (Node.owns ⟨o, n.table, n.members, .array names, .input⟩)).all
      (·.holds i) = false := by
    rw [List.all_eq_false]
    refine ⟨_, List.mem_map_of_mem hmem, ?_⟩
    rw [Node.holds_owns_entry]
    exact Bool.not_eq_true _ ▸ hlacks
  rw [Reading.all_pushAll, refused]
  exact Bool.and_false _

end Narrows

/-! ## Whole schemas -/

section Whole

variable {p : Pairing} {table : Table}

def Pairing.AssertsAll [Pattern.Engines] (p : Pairing) (table : Table) (members : Json.Members) :
    Prop :=
  ∀ member ∈ members, ∀ pass ∈ table, ∀ k, Pass.get? pass member.1 = some k →
    k.asserts = true → p.Asserts k ⟨p.left, table, members, member.2, .input⟩

theorem supplied_iff (hp : p.Lawful) (n : Node) {i j : Option Json} (h : p.Related i j) :
    n.Supplied i ↔ n.Supplied j := by
  refine forall₂_congr fun name _ => ?_
  rw [p.isSome_eq (p.entry_related hp h name)]

variable [Pattern.Engines]

/-- The passes over a schema object keep readings twins on what its keywords are asked about. -/
theorem agree_passes (hp : p.Lawful) {f g : Enrich} {members : Json.Members}
    (hk : p.AssertsAll table members)
    (h : ∀ member ∈ members, ∀ pass ∈ table, ∀ k, Pass.get? pass member.1 = some k →
      ∀ part ∈ k.parts member.2, p.Enriches f g part) {D : Domain}
    (hD : ∀ b i j, D b i j → p.Served ⟨p.left, table, members, .null, .input⟩ b i j)
    {s s' : Reading} (hs : s.Twin p.exact D s') :
    Agree Eq (Reading.Twin p.exact D) (enrichPasses f p.left table members table s)
      (enrichPasses g p.right table members table s') := by
  refine agree_foldlM (fun pass hpass s s' hs => ?_) hs
  refine agree_foldlM (fun member hmember s s' hs => ?_) hs
  rw [enrichMember, enrichMember]
  cases hget : pass.get? member.1 with
  | none => exact .ok hs
  | some k =>
    have relies : k = .properties → table.Relies := by
      rintro rfl
      exact ⟨pass, hpass, member.1, hget⟩
    exact agree_enrich (n := ⟨p.left, table, members, member.2, .input⟩) hp k
      (hk member hmember pass hpass k hget) relies (h member hmember pass hpass k hget) hD hs

/-- Objects that `properties` says nothing of lack a required member, so they are refused by both
readings. -/
theorem enriches_object (hp : p.Lawful) (hgap : p.exact ∨ (table.Relies → table.Requires))
    {f g : Enrich} (hf : ∀ sub, Narrows (f sub)) (hg : ∀ sub, Narrows (g sub))
    {members : Json.Members} (hk : p.AssertsAll table members)
    (h : ∀ member ∈ members, ∀ pass ∈ table, ∀ k, Pass.get? pass member.1 = some k →
      ∀ part ∈ k.parts member.2, p.Enriches f g part) {D : Domain}
    (hD : ∀ b i j, D b i j → p.Asked b i j) {s s' : Reading} (hs : s.Twin p.exact D s') :
    Agree Eq (Reading.Twin p.exact D) (enrichPasses f p.left table members table s)
      (enrichPasses g p.right table members table s') := by
  let n : Node := ⟨p.left, table, members, .null, .input⟩
  have run := agree_passes (D := fun b i j => D b i j ∧ p.Served n b i j) hp hk h
    (fun _ _ _ hij => hij.2) (hs.mono fun _ _ _ hij => hij.1)
  refine run.imp fun t t' hx hy ht => ?_
  refine ⟨ht.types, fun b => ⟨fun i j hij => ?_, (ht.conditions b).consts⟩⟩
  by_cases hserved : p.Served n b i j
  · exact (ht.conditions b).all i j ⟨hij, hserved⟩
  · have asked := hD b i j hij
    obtain ⟨rfl, hexact, hrelies, hlacks⟩ :
        b = .objects ∧ ¬p.exact ∧ table.Relies ∧ ¬n.Supplied i := by
      simpa [Pairing.Served, asked] using hserved
    have hreq : n.table.Requires := (hgap.resolve_left hexact) hrelies
    have hlacks' : ¬n.Supplied j := mt (supplied_iff hp n asked.1).mpr hlacks
    rw [required_refuses hf hreq hx hlacks, required_refuses hg hreq hy hlacks']

theorem enriches_enrichAt (hp : p.Lawful) (hgap : p.exact ∨ (table.Relies → table.Requires))
    {schema : Json}
    (hk : ∀ members, Subschema table schema (.object members) → p.AssertsAll table members)
    (fuel : Nat) :
    p.Enriches (enrichAt p.left table fuel) (enrichAt p.right table fuel) schema := by
  -- By induction on the fuel: the schemas inside a schema object have less of it.
  induction fuel generalizing schema with
  | zero =>
    intro D hD s s' hs
    exact .error rfl
  | succ fuel ih =>
    intro D hD s s' hs
    cases schema with
    | object members =>
      refine enriches_object hp hgap (narrows_enrichAt p.left table fuel)
        (narrows_enrichAt p.right table fuel) (hk members .self) ?_ hD hs
      intro member hmember pass hpass k hget part hpart
      refine ih fun inner hinner => hk inner ?_
      exact .inside hmember hpass hget hpart hinner
    | bool b =>
      cases b with
      | true => exact .ok hs
      | false =>
        refine .ok (hs.push (.test fun i j hij => ?_))
        exact congrArg not (p.isPresent_eq (hD .always i j hij).1)
    | _ => exact .error rfl

/-- A schema compiles under both options or fails in the same way, and its predicates judge related
values alike. -/
theorem compile_twins (hp : p.Lawful) (table : Table) (schema : Json)
    (hgap : p.exact ∨ (table.Relies → table.Requires))
    (hk : ∀ members, Subschema table schema (.object members) → p.AssertsAll table members) :
    (∀ e, compile schema table p.left = .error e ↔ compile schema table p.right = .error e) ∧
    ∀ q q', compile schema table p.left = .ok q → compile schema table p.right = .ok q' →
      ∀ i j, p.Related i j → q.evaluate i = q'.evaluate j := by
  have meanings : Agree Eq (Twin p.exact p.Related) (meaning p.left table schema)
      (meaning p.right table schema) := (enriches_enrichAt hp hgap hk _).reads hp
  constructor
  · intro e
    rw [compile_error_iff, compile_error_iff]
    generalize meaning p.left table schema = x at meanings
    generalize meaning p.right table schema = y at meanings
    cases meanings with
    | ok _ => simp
    | error he => rw [he]
  · intro q q' hq hq' i j hij
    obtain ⟨m, hm, hc⟩ := compile_ok hq
    obtain ⟨m', hm', hc'⟩ := compile_ok hq'
    rw [hm, hm'] at meanings
    cases meanings with
    | ok htwin => rw [hc.evaluate, hc'.evaluate, htwin.holds i j hij]

end Whole

/-! ## The same value on both sides -/

/-- A property of values that goes down to their items and members, and to their keys. -/
structure Hereditary (good : Json → Prop) : Prop where
  item : ∀ {items : List Json}, good (.array items) → ∀ item ∈ items, good item
  member : ∀ {members : Json.Members}, good (.object members) → ∀ member ∈ members, good member.2
  key : ∀ {v : Json} {entries : Entries}, good v → (Instance.value v).entries? = some entries →
    ∀ k ∈ entries.keys, good (.string k.text)

def Pairing.diagonal (left right : Options) (exact : Prop) (good : Json → Prop) : Pairing :=
  ⟨left, right, fun v w => v = w ∧ good v, exact⟩

section Diagonal

variable {left right : Options} {exact : Prop} {good : Json → Prop}

theorem Hereditary.entry (h : Hereditary good) {v x : Json} (hv : good v) {name : String}
    (hx : entryOf (some v) name = some x) : good x := by
  cases v with
  | array items =>
    change (Pointer.parseIndex? name.toList).bind (items[·]?) = some x at hx
    obtain ⟨i, -, hi⟩ := Option.bind_eq_some_iff.mp hx
    exact h.item hv x (List.mem_of_getElem? hi)
  | object members => exact h.member hv _ (Json.mem_of_lookup hx)
  | _ => cases hx

theorem Hereditary.visited (h : Hereditary good) {v : Json} (hv : good v) {entries : Entries}
    (he : (Instance.value v).entries? = some entries) {k : Key} (hk : k ∈ entries.keys) :
    ∃ x, ((Instance.value v).member (.key k)).subject = some x ∧ good x := by
  cases v with
  | array items =>
    cases he
    obtain ⟨i, hi, rfl⟩ := List.mem_map.mp hk
    have hlt : i < items.length := List.mem_range.mp hi
    refine ⟨items[i], ?_, h.item hv _ (List.getElem_mem hlt)⟩
    simp [Instance.member, Instance.entries?, List.getElem?_eq_getElem hlt]
  | object members =>
    cases he
    obtain ⟨member, hm, rfl⟩ := List.mem_map.mp hk
    obtain ⟨x, hx⟩ := lookup_of_mem hm
    refine ⟨x, ?_, h.member hv _ (Json.mem_of_lookup hx)⟩
    simp [Instance.member, Instance.entries?, Entries.get?, Key.text, hx]
  | _ => cases he

theorem lawful_diagonal (unicode : left.unicodeAwareRegex = right.unicodeAwareRegex)
    (types : ∀ v, good v → ∀ t, (Instance.value v).hasType (left.check t) =
      (Instance.value v).hasType (right.check t)) (h : Hereditary good) :
    (Pairing.diagonal left right exact good).Lawful where
  unicode := unicode
  types := by
    rintro v w ⟨rfl, hv⟩ t
    exact types v hv t
  text := by
    rintro v w ⟨rfl, -⟩
    rfl
  items := by
    rintro v w ⟨rfl, hv⟩
    cases v with
    | array items => exact .some (List.forall₂_same.mpr fun x hx => ⟨rfl, h.item hv x hx⟩)
    | _ => exact .none
  entry := by
    rintro v w ⟨rfl, hv⟩ name
    cases hx : entryOf (some v) name with
    | none => exact .none
    | some x => exact .some ⟨rfl, h.entry hv hx⟩
  visits := by
    rintro v w ⟨rfl, hv⟩
    rw [Json.visits]
    cases he : (Instance.value v).entries? with
    | none => exact .none
    | some entries =>
      refine .some ?_
      rw [List.forall₂_map_left_iff, List.forall₂_map_right_iff, List.forall₂_same]
      intro k hk
      obtain ⟨x, hx, hgood⟩ := h.visited hv he hk
      rw [hx]
      exact ⟨.value ⟨rfl, h.key hv he k hk⟩, .value ⟨rfl, hgood⟩⟩

theorem asked_diagonal {b : Bucket} {i j : Option Json}
    (h : (Pairing.diagonal left right exact good).Asked b i j) : i = j := by
  cases h.1 with
  | value hvw => rw [hvw.1]
  | missing _ => rfl

theorem agree_same {b : Bucket} {x y : Demands} (h : x = y) :
    Agree Eq (Twins exact ((Pairing.diagonal left right exact good).Asked b)) x y := by
  rw [h]
  cases y with
  | error e => exact .error rfl
  | ok ms => exact .ok (.self (fun _ _ hij => asked_diagonal hij) ms)

end Diagonal

end SchemaLogic
