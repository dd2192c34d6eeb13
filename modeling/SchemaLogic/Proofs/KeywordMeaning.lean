import SchemaLogic.Proofs.Interpretation
import SchemaLogic.Proofs.Merging

/-! # What keywords ask for

Where the schemas inside a keyword mean what they say, the conditions that the keyword asks for
say what the keyword says. -/
namespace SchemaLogic

/-- What the results of a list of computations say, if each says what its source says. -/
theorem map_mapM {ε α β γ : Type} {f : α → Except ε β} {g : β → γ} {g' : α → γ} {l : List α}
    {bs : List β} (h : l.mapM f = .ok bs) (hf : ∀ a ∈ l, ∀ b, f a = .ok b → g b = g' a) :
    bs.map g = l.map g' := by
  induction l generalizing bs with
  | nil =>
    cases h
    rfl
  | cons a l ih =>
    simp only [List.mapM_cons, bind_eq_ok] at h
    obtain ⟨b, hb, bs, hbs, h⟩ := h
    cases h
    rw [List.map_cons, List.map_cons, hf a (by simp) b hb,
      ih hbs fun c hc => hf c (.tail _ hc)]

theorem map_mapM_congr {ε α β γ : Type} {f g : α → Except ε β} {p : β → γ} {l : List α}
    {bs cs : List β} (hb : l.mapM f = .ok bs) (hc : l.mapM g = .ok cs)
    (h : ∀ a ∈ l, ∀ b c, f a = .ok b → g a = .ok c → p b = p c) : bs.map p = cs.map p := by
  induction l generalizing bs cs with
  | nil =>
    cases hb
    cases hc
    rfl
  | cons a l ih =>
    simp only [List.mapM_cons, bind_eq_ok] at hb hc
    obtain ⟨b, hfa, bs, hbs, hb⟩ := hb
    obtain ⟨c, hga, cs, hcs, hc⟩ := hc
    cases hb
    cases hc
    rw [List.map_cons, List.map_cons, h a (by simp) b c hfa hga,
      ih hbs hcs fun x hx => h x (.tail _ hx)]

theorem all_mapM {ε α β : Type} {f : α → Except ε β} {p : β → Bool} {q : α → Bool} {l : List α}
    {bs : List β} (h : l.mapM f = .ok bs) (hf : ∀ a ∈ l, ∀ b, f a = .ok b → p b = q a) :
    bs.all p = l.all q := by
  have hm := congrArg (·.all id) (map_mapM h hf)
  simpa [Function.comp_def] using hm

theorem forall_mapM {ε α β : Type} {f : α → Except ε β} {P : β → Prop} {l : List α} {bs : List β}
    (h : l.mapM f = .ok bs) (hf : ∀ a ∈ l, ∀ b, f a = .ok b → P b) : ∀ b ∈ bs, P b := by
  induction l generalizing bs with
  | nil =>
    cases h
    exact List.forall_mem_nil P
  | cons a l ih =>
    simp only [List.mapM_cons, bind_eq_ok] at h
    obtain ⟨b, hb, bs, hbs, h⟩ := h
    cases h
    exact List.forall_mem_cons.mpr ⟨hf a (by simp) b hb, ih hbs fun c hc => hf c (.tail _ hc)⟩

/-! ## Conditions on values of one kind -/

section Values

variable {items : List Json} {members : Json.Members}

namespace Meaning

theorem holds_everyItem (m : Meaning (Option Json)) :
    m.everyItem.holds (some (.array items)) = items.all fun x => m.holds (some x) := by
  rw [everyItem, looped, holds_known]
  split
  · next h => simp [holds_of_const? h]
  · rfl

theorem holds_someItem (m : Meaning (Option Json)) :
    m.someItem.holds (some (.array items)) = items.any fun x => m.holds (some x) := by
  rw [someItem, looped, holds_known]
  split
  · next h => simp [holds_of_const? h]
  · rfl

theorem holds_everyKey (m : Meaning (Option Json × Option Json)) :
    m.everyKey.holds (some (.object members)) =
      members.all fun p => m.holds (some (.string p.1), members.lookup p.1) := by
  rw [everyKey, looped, holds_known]
  split
  · next h => simp [holds_of_const? h]
  · simp only [Option.getD_none, Instance.ofOption_some, Instance.entries?, Option.any_some,
      Entries.keys, List.all_map, Instance.member, Function.comp_def, Entries.get?, Key.text,
      Instance.subject_ofOption]

theorem holds_least {measure : Measure} {v : Json} {k : Nat}
    (h : (Instance.value v).measure? measure = some k) (limit : Nat) :
    (size measure .ge limit).holds (some v) = decide (limit ≤ k) := by
  rw [holds_size, Instance.ofOption_some, h, Bool.eq_iff_iff]
  simp [CmpOp.holds, Nat.compare_ne_lt]

theorem holds_most {measure : Measure} {v : Json} {k : Nat}
    (h : (Instance.value v).measure? measure = some k) (limit : Nat) :
    (size measure .le limit).holds (some v) = decide (k ≤ limit) := by
  rw [holds_size, Instance.ofOption_some, h, Bool.eq_iff_iff]
  simp [CmpOp.holds, Nat.compare_ne_gt]

end Meaning

theorem Node.holds_owns_entry (n : Node) (name : String) (i : Option Json) :
    (n.owns name).holds i = ((Instance.ofOption i).entries?.bind (·.get? name)).isSome := by
  rw [owns]
  split
  · rw [Meaning.holds_look]
    cases (Instance.ofOption i).entries? <;> rfl
  · rw [Meaning.holds_property, Meaning.holds_look]
    cases (Instance.ofOption i).entries?.bind (·.get? name) <;> rfl

theorem Node.holds_owns (n : Node) (name : String) :
    (n.owns name).holds (some (.object members)) = (members.lookup name).isSome :=
  n.holds_owns_entry name _

end Values

/-- The conditions on a group of values say what a test says. -/
def Says (b : Bucket) (d : Demands) (p : Json → Bool) : Prop :=
  ∀ ms, d = .ok ms → ∀ v, (!b.covers v || ms.all (·.holds (some v))) = p v

namespace Says

variable {d : Demands}

theorem view {α : Type} {b : Bucket} {view : Json → Option α} {p : α → Bool}
    (hb : ∀ v, b.covers v = (view v).isSome)
    (h : ∀ ms, d = .ok ms → ∀ v a, view v = some a → ms.all (·.holds (some v)) = p a) :
    Says b d fun v => (view v).all p := by
  intro ms hd v
  change (!b.covers v || _) = (view v).all p
  rw [hb]
  cases hv : view v with
  | none => rfl
  | some a => exact h ms hd v a hv

theorem strings {p : String → Bool}
    (h : ∀ ms, d = .ok ms → ∀ text, ms.all (·.holds (some (.string text))) = p text) :
    Says .strings d fun v => v.string?.all p :=
  view (fun v => by cases v <;> rfl) fun ms hd v a hv => by
    cases v <;> cases hv
    exact h ms hd a

theorem numbers {p : Number → Bool}
    (h : ∀ ms, d = .ok ms → ∀ x, ms.all (·.holds (some (.number x))) = p x) :
    Says .numbers d fun v => v.number?.all p :=
  view (fun v => by cases v <;> rfl) fun ms hd v a hv => by
    cases v <;> cases hv
    exact h ms hd a

theorem arrays {p : List Json → Bool}
    (h : ∀ ms, d = .ok ms → ∀ items, ms.all (·.holds (some (.array items))) = p items) :
    Says .arrays d fun v => v.items?.all p :=
  view (fun v => by cases v <;> rfl) fun ms hd v a hv => by
    cases v <;> cases hv
    exact h ms hd a

theorem objects {p : Json.Members → Bool}
    (h : ∀ ms, d = .ok ms → ∀ members, ms.all (·.holds (some (.object members))) = p members) :
    Says .objects d fun v => v.members?.all p :=
  view (fun v => by cases v <;> rfl) fun ms hd v a hv => by
    cases v <;> cases hv
    exact h ms hd a

theorem always {p : Json → Bool}
    (h : ∀ ms, d = .ok ms → ∀ v, ms.all (·.holds (some v)) = p v) : Says .always d p :=
  fun ms hd v => h ms hd v

end Says

def Node.rule (n : Node) : Rule := ⟨n.options, n.table, n.members, n.value⟩

/-! ## Keywords that look at a value without going into it -/

section Assertions

variable {n : Node}

theorem expectObject_ok {keyword : String} {value : Json} {members : Json.Members}
    (h : expectObject keyword value = .ok members) : value = .object members := by
  cases value <;> cases h
  rfl

theorem expectNumber_ok {keyword : String} {value : Json} {x : Number}
    (h : expectNumber keyword value = .ok x) : value = .number x := by
  cases value <;> cases h
  rfl

theorem expectLimit_ok {keyword : String} {value : Json} {limit : Nat}
    (h : expectLimit keyword value = .ok limit) : limit? value = some limit := by
  rw [expectLimit] at h
  split at h
  · next hl =>
    cases h
    exact hl
  · cases h

theorem filterMap_of_mapM {α β : Type} {f : α → Option β} {l : List α} {bs : List β}
    (h : l.mapM f = some bs) : l.filterMap f = bs := by
  induction l generalizing bs with
  | nil =>
    cases h
    rfl
  | cons a l ih =>
    simp only [List.mapM_cons, Option.bind_eq_bind, Option.bind_eq_some_iff] at h
    obtain ⟨b, hb, bs, hbs, h⟩ := h
    cases h
    rw [List.filterMap_cons_some hb, ih hbs]

theorem expectStrings_ok {keyword : String} {value : Json} {names : List String}
    (h : expectStrings keyword value = .ok names) : value.texts = names := by
  simp only [expectStrings, bind_eq_ok] at h
  obtain ⟨items, hi, h⟩ := h
  rw [expectArray_ok hi]
  split at h
  · next names' hn =>
    cases h
    exact filterMap_of_mapM hn
  · cases h

theorem patternOf_ok [Pattern.Engines] {unicode : Bool} {source : String} {p : Pattern}
    (h : patternOf unicode source = .ok p) : Pattern.compile? unicode source = some p := by
  rw [patternOf] at h
  split at h
  · next hp =>
    cases h
    exact hp
  · cases h

theorem says_enum (n : Node) : Says .always n.enumDemands
    fun v => n.value.elements.any (n.rule.equates · v) := by
  refine .always fun ms hd v => ?_
  simp only [Node.enumDemands, bind_eq_ok] at hd
  obtain ⟨items, hi, hd⟩ := hd
  rw [expectArray_ok hi]
  split at hd
  · next hf =>
    cases hd
    simp [Rule.equates, Node.rule, hf, Json.elements, Json.items?, Instance.inTable]
  · next hf =>
    cases hd
    simp [Rule.equates, Node.rule, hf, Json.elements, Json.items?, Function.comp_def]

theorem says_least (n : Node) (keyword : String) (measure : Measure) {v : Json} {k : Nat}
    (hk : (Instance.value v).measure? measure = some k) {ms : List (Meaning (Option Json))}
    (hd : n.leastDemands keyword measure = .ok ms) :
    ms.all (·.holds (some v)) = n.rule.atLeast k := by
  simp only [Node.leastDemands, bind_eq_ok] at hd
  obtain ⟨limit, hl, hd⟩ := hd
  cases hd
  rw [Rule.atLeast, Node.rule, expectLimit_ok hl]
  split
  · simp [Meaning.holds_least hk]
  · have : limit = 0 := by omega
    simp [this]

theorem says_most (n : Node) (keyword : String) (measure : Measure) {v : Json} {k : Nat}
    (hk : (Instance.value v).measure? measure = some k) {ms : List (Meaning (Option Json))}
    (hd : n.mostDemands keyword measure = .ok ms) :
    ms.all (·.holds (some v)) = n.rule.atMost k := by
  simp only [Node.mostDemands, bind_eq_ok] at hd
  obtain ⟨limit, hl, hd⟩ := hd
  cases hd
  rw [Rule.atMost, Node.rule, expectLimit_ok hl]
  simp [Meaning.holds_most hk]

theorem measure?_string (n : Node) (text : String) :
    (Instance.value (.string text)).measure? n.stringMeasure = some (n.rule.width text) := by
  simp only [Node.stringMeasure, Rule.width, Node.rule]
  split <;> simp_all [Instance.measure?, Instance.text?]

theorem says_pattern [Pattern.Engines] (n : Node) : Says .strings n.patternDemands
    fun v => v.string?.all fun text => n.value.string?.all (n.rule.matches? · text) := by
  refine .strings fun ms hd text => ?_
  cases hv : n.value with
  | string source =>
    simp only [Node.patternDemands, hv, bind_eq_ok] at hd
    obtain ⟨p, hp, hd⟩ := hd
    cases hd
    simp [Json.string?, Rule.matches?, Node.rule, patternOf_ok hp, Meaning.matching,
      Instance.text?]
  | _ => simp [Node.patternDemands, hv] at hd

theorem says_bound (n : Node) (keyword : String) (op : CmpOp) :
    Says .numbers (n.boundDemands keyword op) fun v => v.number?.all (n.rule.compares op) := by
  refine .numbers fun ms hd x => ?_
  simp only [Node.boundDemands, bind_eq_ok] at hd
  obtain ⟨limit, hl, hd⟩ := hd
  cases hd
  simp [Rule.compares, Node.rule, expectNumber_ok hl, Json.number?, Instance.number?]

theorem says_divisor (n : Node) :
    Says .numbers n.divisorDemands fun v => v.number?.all n.rule.divides := by
  refine .numbers fun ms hd x => ?_
  simp only [Node.divisorDemands, bind_eq_ok] at hd
  obtain ⟨divisor, hl, hd⟩ := hd
  split at hd
  · cases hd
    simp only [Rule.divides, Node.rule, expectNumber_ok hl, Json.number?, Option.all_some,
      List.all_cons, List.all_nil, Bool.and_true, Meaning.holds_look, Instance.ofOption_some,
      Instance.isMultipleOf, Instance.number?]
    cases if n.options.accurateMultipleOf then Decimal.parse? divisor.text else none with
    | none => rfl
    | some exact =>
      dsimp only
      cases Decimal.parse? x.text <;> rfl
  · cases hd

theorem isUnique_iff (eq : Json → Json → Bool) (items : List Json) :
    Json.isUnique eq items = true ↔ items.Pairwise fun a b => eq a b = false := by
  rw [Json.isUnique_eq_allDiffer]
  induction items with
  | nil => simp [Json.allDiffer]
  | cons x rest ih => simp [Json.allDiffer, ih]

theorem says_unique (n : Node) : Says .arrays n.uniqueDemands fun v => v.items?.all fun items =>
    n.value != .bool true || items.Pairwise fun a b => n.rule.equates a b = false := by
  refine .arrays fun ms hd items => ?_
  cases hv : n.value with
  | bool b =>
    cases b
    · simp only [Node.uniqueDemands, hv] at hd
      cases hd
      rfl
    · simp only [Node.uniqueDemands, hv] at hd
      cases hd
      have unique : Json.isUnique (if n.options.fastAssertions then Json.same else Json.equal) items
          = true ↔ _ := isUnique_iff n.rule.equates items
      rw [Bool.eq_iff_iff]
      simp [unique, Instance.items?]
  | _ => simp [Node.uniqueDemands, hv] at hd

end Assertions

/-- Schemas mean what they say, and `false` accepts nothing. -/
structure Interpret.Judges (interpret : Interpret) (accepts : Accepts) : Prop where
  agrees : ∀ sub m, interpret sub = .ok m → ∀ x, m.holds (some x) = accepts sub x
  refuses : ∀ x, accepts (.bool false) x = false

/-! ## Keywords about the items of an array -/

section Items

variable {interpret : Interpret} {accepts : Accepts} {n : Node}

theorem all_zipIdx (p : Json → Json → Bool) (schemas items : List Json) (start : Nat) :
    ((schemas.zipIdx start).all fun q => (items[q.2]?).all (p q.1)) =
      (schemas.zip (items.drop start)).all fun q => p q.1 q.2 := by
  induction schemas generalizing start with
  | nil => rfl
  | cons schema schemas ih =>
    rw [List.zipIdx_cons, List.all_cons, ih]
    rcases Nat.lt_or_ge start items.length with hs | hs
    · rw [List.drop_eq_getElem_cons hs, List.zip_cons_cons, List.all_cons,
        List.getElem?_eq_getElem hs, Option.all_some]
    · simp [hs, List.drop_eq_nil_of_le, Nat.le_succ_of_le hs]

theorem holds_mostItems (items : List Json) (limit : Nat) :
    (Meaning.size .items .le limit).holds (some (.array items)) = decide (items.length ≤ limit) :=
  Meaning.holds_most rfl limit

theorem holds_leastItems (items : List Json) (limit : Nat) :
    (Meaning.size .items .ge limit).holds (some (.array items)) = decide (limit ≤ items.length) :=
  Meaning.holds_least rfl limit

theorem says_tuple (h : interpret.Judges accepts) {schemas : List Json}
    {ms : List (Meaning (Option Json))} (hd : Node.tupleDemands interpret 0 schemas = .ok ms)
    (items : List Json) :
    ms.all (·.holds (some (.array items))) = Rule.positional accepts schemas items := by
  have hz := all_zipIdx accepts schemas items 0
  rw [List.drop_zero] at hz
  rw [Rule.positional, ← hz]
  apply all_mapM hd
  rintro ⟨sub, i⟩ - m hm
  simp only [bind_eq_ok] at hm
  obtain ⟨m, hsub, hm⟩ := hm
  cases hm
  have hsize := holds_mostItems items i
  have hindex : (m.index i).holds (some (.array items)) = m.holds items[i]? := m.holds_index i _
  simp only [Meaning.holds_disj, List.any_cons, List.any_nil, hsize, hindex, Bool.or_false]
  rcases Nat.lt_or_ge i items.length with hi | hi
  · simp [List.getElem?_eq_getElem hi, h.agrees sub m hsub, Nat.not_le.mpr hi]
  · simp [hi]

theorem says_rest (h : interpret.Judges accepts) {schema : Json} {start : Nat}
    {ms : List (Meaning (Option Json))} (hd : Node.restDemands interpret schema start = .ok ms)
    (items : List Json) :
    ms.all (·.holds (some (.array items))) = (items.drop start).all (accepts schema) := by
  rw [Node.restDemands] at hd
  split at hd
  · next hf =>
    obtain ⟨-, rfl⟩ : 0 < start ∧ schema = .bool false := by simpa using hf
    cases hd
    rw [List.all_cons, holds_mostItems, List.all_nil, Bool.and_true, Bool.eq_iff_iff]
    simp [h.refuses, ← List.eq_nil_iff_forall_not_mem]
  · simp only [bind_eq_ok] at hd
    obtain ⟨m, hsub, hd⟩ := hd
    have agrees : (fun x => m.holds (some x)) = accepts schema := funext (h.agrees schema m hsub)
    split at hd
    · next hs =>
      cases hd
      simp [Meaning.holds_everyItem, agrees, hs]
    · split at hd
      · next hc =>
        cases hd
        simp [← agrees, Meaning.holds_of_const? hc]
      · cases hd
        simp [← agrees, Instance.items?]

theorem containsBound_ok {n : Node} {keyword : String} {bound : Option Nat}
    (h : n.containsBound keyword = .ok bound) : (n.rule.known? keyword).bind limit? = bound := by
  simp only [Node.containsBound, Node.sibling?] at h
  simp only [Rule.known?, Node.rule, Rule.sibling?]
  split at h
  · next hc =>
    simp only [hc, if_true]
    cases hs : n.members.lookup keyword with
    | none =>
      simp only [hs] at h
      cases h
      rfl
    | some value =>
      simp only [hs] at h
      cases hl : expectLimit keyword value with
      | error e =>
        rw [hl] at h
        cases h
      | ok limit =>
        rw [hl] at h
        cases h
        exact expectLimit_ok hl
  · next hc =>
    cases h
    simp [hc]

theorem says_containsBound (n : Node) (keyword : String) {op : CmpOp} {p : Nat → Bool}
    (hp : ∀ limit, limit? n.value = some limit → ∀ items : List Json,
      (Meaning.size .items op limit).holds (some (.array items)) = p items.length) :
    Says .arrays (n.containsBoundDemands keyword op) fun v => v.items?.all fun items =>
      (n.rule.sibling? "contains").isSome || p items.length := by
  refine .arrays fun ms hd items => ?_
  simp only [Node.containsBoundDemands, bind_eq_ok] at hd
  obtain ⟨limit, hl, hd⟩ := hd
  cases hd
  change _ = ((n.sibling? "contains").isSome || _)
  split
  · next hs => simp [hs]
  · next hs =>
    rw [List.all_cons, hp limit (expectLimit_ok hl)]
    simp [hs]

variable [Pattern.Engines]

theorem says_items (h : interpret.Judges accepts) (n : Node) :
    Says .arrays (n.itemsDemands interpret) (Keyword.items.holds accepts n.rule) := by
  refine .arrays fun ms hd items => ?_
  have covered : n.prefixLength =
      (((n.rule.known? "prefixItems").bind Json.items?).getD []).length := by
    simp only [Node.prefixLength, Rule.known?, Node.rule, Node.sibling?, Rule.sibling?]
    by_cases hc : n.table.contains "prefixItems" = true
    · simp only [hc, if_true]
      rcases n.members.lookup "prefixItems" with _ | value
      · rfl
      · cases value <;> rfl
    · simp [hc]
  cases hv : n.value with
  | array schemas =>
    simp only [Node.itemsDemands, hv] at hd
    simpa [Node.rule, hv] using says_tuple h hd items
  | _ =>
    simp only [Node.itemsDemands, hv] at hd
    simpa [Node.rule, hv, covered] using says_rest h hd items

theorem says_prefixItems (h : interpret.Judges accepts) (n : Node) :
    Says .arrays (n.positionDemands interpret) (Keyword.prefixItems.holds accepts n.rule) := by
  refine .arrays fun ms hd items => ?_
  simp only [Node.positionDemands, bind_eq_ok] at hd
  obtain ⟨schemas, hs, hd⟩ := hd
  change _ = Rule.positional accepts n.value.elements items
  rw [expectArray_ok hs]
  exact says_tuple h hd items

theorem says_additionalItems (h : interpret.Judges accepts) (n : Node) :
    Says .arrays (n.additionalItemsDemands interpret)
      (Keyword.additionalItems.holds accepts n.rule) := by
  refine .arrays fun ms hd items => ?_
  change _ = ((n.sibling? "items").bind Json.items?).all fun schemas => _
  rw [Node.additionalItemsDemands] at hd
  cases hs : n.sibling? "items" with
  | none =>
    simp only [hs] at hd
    cases hd
    rfl
  | some value =>
    cases value with
    | array schemas =>
      simp only [hs] at hd
      exact says_rest h hd items
    | _ =>
      simp only [hs] at hd
      cases hd
      rfl

theorem says_contains (h : interpret.Judges accepts) (n : Node) :
    Says .arrays (n.containsDemands interpret) (Keyword.contains.holds accepts n.rule) := by
  refine .arrays fun ms hd items => ?_
  simp only [Node.containsDemands, bind_eq_ok] at hd
  obtain ⟨least, hleast, most, hmost, m, hm, hd⟩ := hd
  have agrees : (fun x => m.holds (some x)) = accepts n.value := funext (h.agrees n.value m hm)
  change _ = (decide (_ ≤ items.countP (accepts n.value)) && _)
  rw [containsBound_ok hleast, containsBound_ok hmost]
  split at hd
  · next hnone =>
    obtain ⟨rfl, rfl⟩ : least = none ∧ most = none := by simpa using hnone
    cases hd
    rw [Bool.eq_iff_iff]
    simp [Meaning.holds_someItem, agrees, Nat.succ_le_iff, List.countP_pos_iff]
  · split at hd
    · next hzero =>
      obtain ⟨rfl, rfl⟩ : least = some 0 ∧ most = none := by simpa using hzero
      cases hd
      simp
    · cases hd
      change (Routine.within (least.getD 1) most (items.countP fun x => m.holds (some x)) && true)
        = _
      rw [agrees, Bool.and_true]
      rfl

end Items

/-! ## Keywords about the members of an object -/

section Members

variable {interpret : Interpret} {accepts : Accepts} {members : Json.Members}

theorem lookup_of_mem {p : String × Json} (h : p ∈ members) : ∃ x, members.lookup p.1 = some x :=
  Option.isSome_iff_exists.mp (List.lookup_isSome_iff.mpr ⟨p, h, beq_self_eq_true p.1⟩)

theorem all_each (members : Json.Members) {p : String × Json → Bool} {q : String → Json → Bool}
    (h : ∀ m ∈ members, ∀ x, members.lookup m.1 = some x → p m = q m.1 x) :
    members.all p = members.each q := by
  refine all_congr_mem fun m hm => ?_
  obtain ⟨x, hx⟩ := lookup_of_mem hm
  rw [h m hm x hx]
  simp [hx]

theorem siblingMembers_eq (n : Node) (name : String) :
    n.siblingMembers name = ((n.rule.sibling? name).getD .null).fields := by
  simp only [Node.siblingMembers, Node.sibling?, Rule.sibling?, Node.rule]
  rcases n.members.lookup name with _ | value
  · rfl
  · cases value <;> rfl

theorem spareMeaning_ok (h : interpret.Judges accepts) {schema : Json}
    {m : Meaning (Option Json)} (hm : Node.spareMeaning interpret schema = .ok m) (x : Json) :
    m.holds (some x) = accepts schema x := by
  rw [Node.spareMeaning.eq_def] at hm
  split at hm
  · cases hm
    exact (h.refuses x).symm
  · exact h.agrees schema m hm x

theorem dependencyMeaning_ok (h : interpret.Judges accepts) {n : Node} {keyword : String}
    {value : Json} {m : Meaning (Option Json)}
    (hm : n.dependencyMeaning interpret keyword value = .ok m) :
    m.holds (some (.object members)) = Rule.dependent accepts members value := by
  cases value with
  | array items =>
    simp only [Node.dependencyMeaning, bind_eq_ok] at hm
    obtain ⟨names, hn, hm⟩ := hm
    cases hm
    rw [Rule.dependent, expectStrings_ok hn, Meaning.holds_conj, List.all_map]
    simp [Function.comp_def, Node.holds_owns]
  | _ => exact h.agrees _ m hm _

variable [Pattern.Engines]

theorem says_required (n : Node) :
    Says .objects n.requiredDemands (Keyword.required.holds accepts n.rule) := by
  refine .objects fun ms hd members => ?_
  simp only [Node.requiredDemands, bind_eq_ok] at hd
  obtain ⟨names, hn, hd⟩ := hd
  cases hd
  change _ = n.value.texts.all fun name => _
  rw [expectStrings_ok hn, List.all_map]
  simp [Function.comp_def, Node.holds_owns]

/-- The table knows `properties`, which counts on `required`. -/
def Table.Relies (table : Table) : Prop :=
  ∃ pass ∈ table, ∃ name, Pass.get? pass name = some .properties

/-- Without a test for presence the condition on a member counts on `required`. -/
theorem says_properties (h : interpret.Judges accepts) (n : Node)
    {ms : List (Meaning (Option Json))} (hd : n.propertyDemands interpret = .ok ms)
    (present : ∀ name ∈ n.requiredNames, (members.lookup name).isSome = true) :
    ms.all (·.holds (some (.object members))) =
      Keyword.properties.holds accepts n.rule (.object members) := by
  simp only [Node.propertyDemands, bind_eq_ok] at hd
  obtain ⟨properties, hp, hd⟩ := hd
  change _ = n.value.fields.all fun p => (members.lookup p.1).all (accepts p.2)
  rw [expectObject_ok hp]
  apply all_mapM hd
  rintro ⟨name, schema⟩ - m hm
  simp only [bind_eq_ok] at hm
  obtain ⟨m, hsub, hm⟩ := hm
  cases hm
  have property : (m.property name).holds (some (.object members)) =
      m.holds (members.lookup name) := m.holds_property name _
  split
  · next hreq =>
    obtain ⟨x, hx⟩ := Option.isSome_iff_exists.mp (present name (by simpa using hreq))
    rw [property, hx, h.agrees schema m hsub]
    rfl
  · simp only [Meaning.holds_disj, List.any_cons, List.any_nil, Meaning.holds_negate,
      Node.holds_owns, property]
    cases members.lookup name with
    | none => rfl
    | some x => simp [h.agrees schema m hsub]

theorem says_propertyNames (h : interpret.Judges accepts) (n : Node) :
    Says .objects (n.propertyNameDemands interpret)
      (Keyword.propertyNames.holds accepts n.rule) := by
  refine .objects fun ms hd members => ?_
  simp only [Node.propertyNameDemands, bind_eq_ok] at hd
  obtain ⟨m, hm, hd⟩ := hd
  cases hd
  simp [Meaning.holds_everyKey, h.agrees n.value m hm, Node.rule]

theorem keyMatching_ok {n : Node} {source : String} {m : Meaning (Option Json × Option Json)}
    (h : n.keyMatching source = .ok m) (name : String) (s : Option Json) :
    m.holds (some (.string name), s) = n.rule.matches? source name := by
  simp only [Node.keyMatching, bind_eq_ok] at h
  obtain ⟨p, hp, h⟩ := h
  cases h
  simp [Meaning.matching, Rule.matches?, Node.rule, patternOf_ok hp, Instance.text?]

theorem says_patternProperties (h : interpret.Judges accepts) (n : Node) :
    Says .objects (n.patternPropertyDemands interpret)
      (Keyword.patternProperties.holds accepts n.rule) := by
  refine .objects fun ms hd members => ?_
  simp only [Node.patternPropertyDemands, bind_eq_ok] at hd
  obtain ⟨patterns, hp, clauses, hc, hd⟩ := hd
  cases hd
  rw [List.all_cons, List.all_nil, Bool.and_true, Meaning.holds_everyKey]
  refine all_each members fun member _ x hx => ?_
  change _ = n.value.fields.all fun p => _
  rw [hx, Meaning.holds_conj, expectObject_ok hp]
  apply all_mapM hc
  rintro ⟨source, schema⟩ - m hm
  simp only [bind_eq_ok] at hm
  obtain ⟨key, hkey, m, hsub, hm⟩ := hm
  cases hm
  simp [keyMatching_ok hkey, h.agrees schema m hsub]

theorem says_additionalProperties (h : interpret.Judges accepts) (n : Node) :
    Says .objects (n.additionalPropertyDemands interpret)
      (Keyword.additionalProperties.holds accepts n.rule) := by
  refine .objects fun ms hd members => ?_
  simp only [Node.additionalPropertyDemands, bind_eq_ok] at hd
  obtain ⟨matched, hmatched, m, hm, hd⟩ := hd
  cases hd
  rw [List.all_cons, List.all_nil, Bool.and_true, Meaning.holds_everyKey]
  refine all_each members fun member _ x hx => ?_
  have byPattern : matched.any (·.holds (some (.string member.1), some x)) =
      (n.siblingMembers "patternProperties").any (n.rule.matches? ·.1 member.1) := by
    have := congrArg (·.any id) (map_mapM (g := (·.holds (some (.string member.1), some x)))
      hmatched fun source _ m hm => keyMatching_ok hm member.1 (some x))
    simpa [Function.comp_def] using this
  rw [hx, Meaning.holds_disj, List.any_append, List.any_append, byPattern]
  simp [siblingMembers_eq, Function.comp_def, spareMeaning_ok h hm, Node.rule,
    Instance.equalsScalar, Instance.text?]

theorem says_dependency (h : interpret.Judges accepts) (n : Node) (keyword : String)
    (check : Json → Except CompileError Unit) :
    Says .objects (n.dependencyDemands interpret keyword check)
      (Keyword.dependencies.holds accepts n.rule) := by
  refine .objects fun ms hd members => ?_
  simp only [Node.dependencyDemands, bind_eq_ok] at hd
  obtain ⟨triggers, ht, hd⟩ := hd
  change _ = n.value.fields.all fun p => _
  rw [expectObject_ok ht]
  apply all_mapM hd
  rintro ⟨trigger, value⟩ - m hm
  simp only [bind_eq_ok] at hm
  obtain ⟨_, -, m, hm, h'⟩ := hm
  cases h'
  simp [Node.holds_owns, dependencyMeaning_ok h hm]

end Members

variable [Pattern.Engines]

theorem says_not {interpret : Interpret} {accepts : Accepts} (h : interpret.Judges accepts)
    (n : Node) : Says .always (n.notDemands interpret) (Keyword.not.holds accepts n.rule) := by
  refine .always fun ms hd v => ?_
  simp only [Node.notDemands, bind_eq_ok] at hd
  obtain ⟨m, hm, hd⟩ := hd
  cases hd
  simp [h.agrees n.value m hm, Keyword.holds, Node.rule]

theorem says_custom (n : Node) (c : CustomKeyword) (accepts : Accepts) :
    Says .always (n.customDemands c) ((Keyword.custom c).holds accepts n.rule) := by
  refine .always fun ms hd v => ?_
  simp only [Keyword.holds, Node.rule]
  cases hc : c.setUp n.members n.value with
  | error cause => simp [Node.customDemands, hc] at hd
  | ok check =>
    simp only [Node.customDemands, hc] at hd
    cases hd
    simp [Instance.passes]

/-- The conditions that a keyword asks for say what the keyword says. Declared types and branches
are no such conditions, and those of `properties` count on `required`. -/
theorem demands_say {interpret : Interpret} {accepts : Accepts} (h : interpret.Judges accepts)
    (n : Node) {k : Keyword} (hk : k ∉ [.type, .anyOf, .oneOf, .allOf, .properties]) :
    Says k.bucket (k.demands interpret n) (k.holds accepts n.rule) := by
  cases k with
  | type | anyOf | oneOf | allOf | properties => simp at hk
  | enum => exact says_enum n
  | const =>
    refine .always fun ms hd v => ?_
    cases hd
    simp [Keyword.holds, Node.rule]
  | minLength => exact .strings fun ms hd text => says_least n _ _ (measure?_string n text) hd
  | maxLength => exact .strings fun ms hd text => says_most n _ _ (measure?_string n text) hd
  | pattern => exact says_pattern n
  | multipleOf => exact says_divisor n
  | minimum | maximum | exclusiveMinimum | exclusiveMaximum => exact says_bound n _ _
  | minItems => exact .arrays fun ms hd items => says_least n _ .items rfl hd
  | maxItems => exact .arrays fun ms hd items => says_most n _ .items rfl hd
  | uniqueItems => exact says_unique n
  | items => exact says_items h n
  | prefixItems => exact says_prefixItems h n
  | additionalItems => exact says_additionalItems h n
  | contains => exact says_contains h n
  | minContains =>
    refine says_containsBound n _ fun limit hl items => ?_
    rw [holds_leastItems, Rule.atLeast, Node.rule, hl, Option.all_some]
  | maxContains =>
    refine says_containsBound n _ fun limit hl items => ?_
    rw [holds_mostItems, Rule.atMost, Node.rule, hl, Option.all_some]
  | propertyNames => exact says_propertyNames h n
  | minProperties => exact .objects fun ms hd members => says_least n _ .keys rfl hd
  | maxProperties => exact .objects fun ms hd members => says_most n _ .keys rfl hd
  | required => exact says_required n
  | patternProperties => exact says_patternProperties h n
  | additionalProperties => exact says_additionalProperties h n
  | dependencies => exact says_dependency h n "dependencies" fun _ => .ok ()
  | dependentRequired => exact says_dependency h n "dependentRequired" Node.checkNames
  | dependentSchemas => exact says_dependency h n "dependentSchemas" Node.checkSchema
  | not => exact says_not h n
  | custom c => exact says_custom n c accepts

end SchemaLogic
