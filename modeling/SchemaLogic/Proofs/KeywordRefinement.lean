import SchemaLogic.Proofs.Refinement

/-! # Each keyword compiles to what it means -/
namespace SchemaLogic

def ValueRef.Live (r : ValueRef) (w : Workspace) : Prop := ∀ s ∈ r.slots, s.index < w.slots

theorem ValueRef.Live.grow {r : ValueRef} {w u : Workspace} (h : r.Live w)
    (hg : w.stock.Grows u.stock) : r.Live u :=
  fun s hs => Nat.lt_of_lt_of_le (h s hs) hg.slots

namespace Expr

mutual

theorem binds_equalTo : ∀ (literal : Json) (r : ValueRef) (i : Nat), (equalTo r literal).binds i = 0
  | .null, _, _ => rfl
  | .bool _, _, _ => rfl
  | .number _, _, _ => rfl
  | .string _, _, _ => rfl
  | .array items, r, i => Nat.le_zero.mp (Nat.le_trans (binds_conj _ i) (by
    rw [tally_cons, tally_cons, tally_equalToItems items r 0 i]
    exact Nat.le_refl 0))
  | .object members, r, i => Nat.le_zero.mp (Nat.le_trans (binds_conj _ i) (by
    rw [tally_cons, tally_cons, tally_equalToMembers members r i]
    exact Nat.le_refl 0))
termination_by structural literal => literal

theorem tally_equalToItems : ∀ (items : List Json) (r : ValueRef) (k i : Nat),
    tally (equalToItems r k items) i = 0
  | [], _, _, _ => rfl
  | item :: rest, r, k, i => by
    rw [equalToItems, tally_cons, binds_equalTo item, tally_equalToItems rest]
termination_by structural items => items

theorem tally_equalToMembers : ∀ (members : Json.Members) (r : ValueRef) (i : Nat),
    tally (equalToMembers r members) i = 0
  | [], _, _ => rfl
  | (_, value) :: rest, r, i => by
    rw [equalToMembers, tally_cons, binds_equalTo value, tally_equalToMembers rest]
termination_by structural members => members

end

end Expr

namespace Refines

variable {base : Nat} {w : Workspace}

theorem covers_slot {r : ValueRef} {slot : Slot} (h : ∀ t ∈ r.slots, t.index < slot.index) :
    Expr.Covers [slot] (slot :: r.slots) :=
  ⟨by simp, by simpa using fun t ht => Nat.le_of_lt (h t ht)⟩

theorem live_slot {slot : Slot} (hi : slot.index = w.slots) : (ValueRef.slot slot).Live w.bump := by
  intro t ht
  obtain rfl : t = slot := by simpa [ValueRef.slots] using ht
  exact hi ▸ Nat.lt_succ_self _

variable (n : Node)

theorem live_member {key : Slot} (hr : n.ref.Live w) (hi : key.index = w.slots) :
    (ValueRef.member n.ref key).Live w.bump := by
  intro t ht
  rcases List.mem_cons.mp ht with rfl | ht
  · exact hi ▸ Nat.lt_succ_self _
  · exact Nat.lt_succ_of_lt (hr t ht)

theorem realises_owns (name : String) :
    Realises base w n.ref.slots n.ref.subject (n.owns name) (n.hasProperty name) := by
  unfold Node.owns Node.hasProperty
  split
  · exact .plain (fun _ => rfl) (fun _ => trivial) (fun _ => rfl) fun _ hs => hs
  · exact (Realises.present (r := .property n.ref name) fun _ hs => hs).property

theorem binds_hasProperty (name : String) (i : Nat) : (n.hasProperty name).binds i = 0 := by
  unfold Node.hasProperty
  split <;> rfl

theorem realises_ownsAll (names : List String) :
    List.Forall₂ (Realises base w n.ref.slots n.ref.subject) (names.map n.owns)
      (names.map n.hasProperty) := by
  rw [List.forall₂_map_left_iff, List.forall₂_map_right_iff, List.forall₂_same]
  exact fun name _ => realises_owns n name

theorem tally_hasProperty (names : List String) (i : Nat) :
    tally (names.map n.hasProperty) i = 0 :=
  tally_eq_zero (by simp [binds_hasProperty])

theorem realises_guarded {m : Meaning (Option Json)} {e : Expr} (name : String)
    (he : Realises base w n.ref.slots n.ref.subject m e) :
    Realises base w n.ref.slots n.ref.subject (.disj [.negate (n.owns name), m])
      (.disj [.negate (n.hasProperty name), e]) :=
  .disj (.cons (realises_owns n name).negate (.cons he .nil))

theorem binds_guarded (name : String) (e : Expr) (i : Nat) :
    (Expr.disj [.negate (n.hasProperty name), e]).binds i ≤ e.binds i := by
  have hb := Expr.binds_disj [.negate (n.hasProperty name), e] i
  simp only [tally_cons, tally_nil, Expr.binds_negate, binds_hasProperty] at hb
  omega

abbrev keyView (r : ValueRef) (key : Slot) (input : Instance) (env : Env) :
    Option Json × Option Json :=
  ((ValueRef.slot key).subject input env, (ValueRef.member r key).subject input env)

/-- A key is named, or it matches, or its member satisfies the schema. -/
theorem realises_spare {key : Slot} {m : Meaning (Option Json)} {e : Expr} {es : List Expr}
    {ms : List (Meaning (Option Json × Option Json))}
    (hms : List.Forall₂ (Realises base w (key :: n.ref.slots) (keyView n.ref key)) ms es)
    (hm : Realises base w (key :: n.ref.slots) (ValueRef.member n.ref key).subject m e) :
    Realises base w (key :: n.ref.slots) (keyView n.ref key)
      (.disj (((n.siblingMembers "properties").map fun (name, _) =>
        (Meaning.look (·.equalsScalar (.string name))).along Prod.fst) ++ ms ++ [m.along Prod.snd]))
      (.disj (((n.siblingMembers "properties").map fun (name, _) =>
        Expr.equals (.slot key) (.string name)) ++ es ++ [e])) := by
  refine .disj (List.rel_append (List.rel_append ?_ hms)
    (.cons (Realises.along (f := Prod.snd) hm) .nil))
  rw [List.forall₂_map_left_iff, List.forall₂_map_right_iff, List.forall₂_same]
  exact fun p _ => Realises.along (f := Prod.fst)
    (.equals (r := .slot key) (.string p.1) (by simp [ValueRef.slots]))

theorem binds_spare (key : Slot) (es : List Expr) (e : Expr) (i : Nat) :
    (Expr.disj (((n.siblingMembers "properties").map fun (name, _) =>
      Expr.equals (.slot key) (.string name)) ++ es ++ [e])).binds i ≤ e.binds i + tally es i := by
  refine Nat.le_trans (Expr.binds_disj _ i) (Nat.le_of_eq ?_)
  have hn : tally ((n.siblingMembers "properties").map fun (name, _) =>
      Expr.equals (.slot key) (.string name)) i = 0 :=
    tally_eq_zero fun x hx => by
      obtain ⟨p, -, rfl⟩ := List.mem_map.mp hx
      rfl
  rw [tally_append, tally_append, hn, tally_cons, tally_nil]
  omega

end Refines

variable [Pattern.Engines]

/-- Extending scopes keeps to enriching readings. -/
def ExtendRefines (o : Options) (base : Nat) (extend : Extend) (enrich : Enrich) : Prop :=
  ∀ (w : Workspace) (schema : Json) (r : ValueRef) (s : Scope) (reading : Reading),
    w.Sound o base → r.Live w → s.Realises base w r reading →
      Refines o base w s.tally (extend schema r s) (enrich schema reading) Scope.tally
        fun u s reading => s.Realises base u r reading

namespace Refines

variable {base : Nat} {extend : Extend} {enrich : Enrich} {w : Workspace}

theorem conditions {o : Options} (h : ExtendRefines o base extend enrich) (hw : w.Sound o base)
    {r : ValueRef} (hr : r.Live w) (schema : Json) :
    Refines o base w (fun _ => 0) (conditions extend o schema r) (enrich.interpret o schema)
      Expr.binds fun u e m => Realises base u r.slots r.subject m e := by
  cases schema with
  | bool b =>
    cases b
    · exact done hw (.absent fun _ hs => hs) fun _ => Nat.le_refl _
    · exact done hw (.present fun _ hs => hs) fun _ => Nat.le_refl _
  | object members =>
    refine bind ((h w (.object members) r {} {} hw hr .empty).weaken fun _ => Nat.le_refl _) ?_
    intro u s reading _ hu hs
    exact done hu (hs.finalize o) (Scope.binds_finalize o r s)
  | _ => exact fail _

/-- A keyword adds what it demands to a bucket of the scope. -/
def Delivers (n : Node) (base : Nat) (w : Workspace) (bucket : Bucket) (s : Scope)
    (reading : Reading) (run : Compile Scope) (demands : Demands) : Prop :=
  Refines n.options base w s.tally run (demands >>= fun ms => pure (reading.pushAll bucket ms))
    Scope.tally fun u s reading => s.Realises base u n.ref reading

section Assertions

variable {s : Scope} {reading : Reading} {before : Nat → Nat} {bucket : Bucket}

/-- The last step of most keywords: one condition goes into a bucket. -/
theorem deliver {o : Options} {r : ValueRef} (hw : w.Sound o base)
    (hs : s.Realises base w r reading) {m : Meaning (Option Json)} {e : Expr}
    (he : Realises base w r.slots r.subject m e) (hb : ∀ i, e.binds i + s.tally i ≤ before i) :
    Refines o base w before (pure (s.push bucket e)) (pure (reading.pushAll bucket [m]))
      Scope.tally fun u s reading => s.Realises base u r reading :=
  done hw (hs.push bucket he) fun i => by
    have := s.tally_push bucket e i
    have := hb i
    omega

theorem deliver_leaf {o : Options} {r : ValueRef} (hw : w.Sound o base)
    (hs : s.Realises base w r reading) {m : Meaning (Option Json)} {e : Expr}
    (he : Realises base w r.slots r.subject m e) (hb : ∀ i, e.binds i = 0) :
    Refines o base w s.tally (pure (s.push bucket e)) (pure (reading.pushAll bucket [m]))
      Scope.tally fun u s reading => s.Realises base u r reading :=
  deliver hw hs he fun i => Nat.le_of_eq (by rw [hb i, Nat.zero_add])

theorem deliver_plain {o : Options} {r : ValueRef} (hw : w.Sound o base)
    (hs : s.Realises base w r reading) {e : Expr} {f : Instance → Bool}
    (hl : ∀ pool : Declarations, e.look? pool = some (r, f)) (hn : ∀ pool, e.Named pool)
    (hk : Instance.KeyBlind f) (hb : e.bound = []) :
    Refines o base w s.tally (pure (s.push bucket e)) (pure (reading.pushAll bucket [.look f]))
      Scope.tally fun u s reading => s.Realises base u r reading :=
  deliver_leaf hw hs (.plain hl hn hk fun _ hs => hs) (Expr.binds_leaf hb)

variable (n : Node) (hw : w.Sound n.options base) (hs : s.Realises base w n.ref reading)
include hw hs

theorem applyLeast (keyword : String) (measure : Measure) :
    Delivers n base w bucket s reading (n.applyLeast keyword bucket measure s)
      (n.leastDemands keyword measure) := by
  simp only [Delivers, Node.applyLeast, Node.leastDemands, bind_assoc, pure_bind]
  refine lift fun limit _ => ?_
  split
  · exact deliver_leaf hw hs (.size measure .ge limit fun _ hs => hs) fun _ => rfl
  · exact done hw hs fun _ => Nat.le_refl _

theorem applyMost (keyword : String) (measure : Measure) :
    Delivers n base w bucket s reading (n.applyMost keyword bucket measure s)
      (n.mostDemands keyword measure) := by
  simp only [Delivers, Node.applyMost, Node.mostDemands, bind_assoc, pure_bind]
  refine lift fun limit _ => ?_
  exact deliver_leaf hw hs (.size measure .le limit fun _ hs => hs) fun _ => rfl

theorem applyBound (keyword : String) (op : CmpOp) :
    Delivers n base w .numbers s reading (n.applyBound keyword op s)
      (n.boundDemands keyword op) := by
  simp only [Delivers, Node.applyBound, Node.boundDemands, bind_assoc, pure_bind]
  refine lift fun limit _ => ?_
  exact deliver_plain hw hs (fun _ => rfl) (fun _ => trivial) (fun _ => rfl) rfl

theorem applyMultipleOf :
    Delivers n base w .numbers s reading (n.applyMultipleOf s) n.divisorDemands := by
  simp only [Delivers, Node.applyMultipleOf, Node.divisorDemands, bind_assoc]
  refine lift fun number _ => ?_
  split
  · rw [pure_bind]
    exact deliver_plain hw hs (fun _ => rfl) (fun _ => trivial) (fun _ => rfl) rfl
  · exact fail _

theorem applyPattern :
    Delivers n base w .strings s reading (n.applyPattern s) n.patternDemands := by
  simp only [Delivers, Node.applyPattern, Node.patternDemands]
  cases n.value with
  | string source =>
    simp only [bind_assoc, pure_bind]
    refine step (addPattern source hw) fun u name p hg hu hn => ?_
    refine deliver hu (hs.grow hg) (.look (fun pool hp => ?_) (fun _ => rfl) ⟨p, hn⟩ fun _ hs => hs)
      fun i => Nat.le_refl _
    simp only [Expr.look?, Declarations.get_extended hp hn]
  | _ => exact fail _

theorem applyUniqueItems :
    Delivers n base w .arrays s reading (n.applyUniqueItems s) n.uniqueDemands := by
  simp only [Delivers, Node.applyUniqueItems, Node.uniqueDemands]
  cases n.value with
  | bool b =>
    cases b
    · exact done hw hs fun _ => Nat.le_refl _
    · simp only [pure_bind]
      split
      · exact deliver_plain hw hs (fun _ => rfl) (fun _ => trivial) (fun _ => rfl) rfl
      · refine includeBuiltin hw fun u name hg hu hn => ?_
        refine deliver_leaf hu (hs.grow hg)
          (.look (fun pool hp => ?_) (fun _ => rfl) hn fun _ hs => hs) fun _ => rfl
        simp only [Expr.look?, Declarations.get_extended hp hn]
  | _ => exact fail _

theorem applyType :
    Refines n.options base w s.tally (n.applyType s)
      (Node.declaredTypes n.value >>= fun types => pure (reading.declare types)) Scope.tally
      fun u s reading => s.Realises base u n.ref reading := by
  simp only [Node.applyType]
  exact lift fun types _ => done hw (hs.declare types) fun _ => Nat.le_refl _

theorem applyConst :
    Delivers n base w .always s reading (n.applyConst s) (pure [.equalTo n.value]) :=
  deliver_leaf hw hs (.equalTo n.value fun _ hs => hs) (Expr.binds_equalTo n.value n.ref)

theorem applyEnum : Delivers n base w .always s reading (n.applyEnum s) n.enumDemands := by
  simp only [Delivers, Node.applyEnum, Node.enumDemands, bind_assoc]
  refine lift fun items hi => ?_
  split
  · refine addLiteral hw fun u name hg hu hn => ?_
    rw [expectArray_ok hi] at hn
    refine deliver_leaf hu (hs.grow hg) (.look (fun pool hp => ?_)
      (Instance.keyBlind_inTable items) ⟨items, hn⟩ fun _ hs => hs) fun _ => rfl
    simp only [Expr.look?, Declarations.get_extended hp hn]
  · refine deliver_leaf hw hs (.disj ?_) fun i => ?_
    · rw [List.forall₂_map_left_iff, List.forall₂_map_right_iff, List.forall₂_same]
      exact fun item _ => .equalTo item fun _ hs => hs
    · refine Nat.le_zero.mp (Nat.le_trans (Expr.binds_disj _ i) (Nat.le_of_eq ?_))
      exact tally_eq_zero (by simp [Expr.binds_equalTo])

theorem applyCustom (c : CustomKeyword) :
    Delivers n base w .always s reading (n.applyCustom c s) (n.customDemands c) := by
  simp only [Delivers, Node.applyCustom, Node.customDemands]
  cases c.setUp n.members n.value with
  | ok accepts => exact deliver_plain hw hs (fun _ => rfl) (fun _ => trivial) (fun _ => rfl) rfl
  | error cause => exact fail _

theorem applyContainsBound (keyword : String) (op : CmpOp) :
    Delivers n base w .arrays s reading (n.applyContainsBound keyword op s)
      (n.containsBoundDemands keyword op) := by
  simp only [Delivers, Node.applyContainsBound, Node.containsBoundDemands, bind_assoc, pure_bind]
  refine lift fun limit _ => ?_
  split
  · exact done hw hs fun _ => Nat.le_refl _
  · exact deliver_leaf hw hs (.size .items op limit fun _ hs => hs) fun _ => rfl

end Assertions

section Items

variable {s : Scope} {reading : Reading} (n : Node)
variable (h : ExtendRefines n.options base extend enrich) (hw : w.Sound n.options base)
variable (hr : n.ref.Live w) (hs : s.Realises base w n.ref reading)
include h hw hr hs

theorem applyTuple (schemas : List Json) (i : Nat) :
    Delivers n base w .arrays s reading (n.applyTuple extend i schemas s)
      (Node.tupleDemands (enrich.interpret n.options) i schemas) := by
  induction schemas generalizing w s reading i with
  | nil => exact done hw hs fun _ => Nat.le_refl _
  | cons schema rest ih =>
    simp only [Delivers, Node.applyTuple, Node.tupleDemands, List.zipIdx_cons, List.mapM_cons,
      bind_assoc, pure_bind]
    refine step (conditions h hw (r := .index n.ref i) hr schema) fun u e m hg hu he => ?_
    have hd : Realises base u n.ref.slots n.ref.subject
        (.disj [.size .items .le i, m.index i]) (.disj [.size n.ref .items .le i, e]) :=
      .disj (.cons (.size .items .le i fun _ hs => hs) (.cons he.index .nil))
    refine weaken (ih hu (hr.grow hg) ((hs.grow hg).push .arrays hd) (i + 1)) fun j => ?_
    have hp := s.tally_push .arrays (.disj [.size n.ref .items .le i, e]) j
    have hb := Expr.binds_disj [.size n.ref .items .le i, e] j
    simp only [tally_cons, tally_nil, Expr.binds_leaf (e := .size _ _ _ _) rfl] at hb
    omega

omit h hr in
theorem deliver_routine {r : Routine} {m : Meaning (Option Json)} {before : Nat → Nat}
    (hi : r.item.index < w.slots) (ht : ∀ t ∈ n.ref.slots, t.index < r.item.index)
    (hm : Realises base w [r.item] (ValueRef.slot r.item).subject m r.body)
    (hb : ∀ i, r.item.once i + r.body.binds i + s.tally i ≤ before i) :
    Refines n.options base w before
      (Compile.addRoutine r >>= fun name => pure (s.push .arrays (.call name n.ref)))
      (pure (reading.pushAll .arrays
        [.look fun i => i.items?.any (r.asks fun x => m.holds (some x))]))
      Scope.tally fun u s reading => s.Realises base u n.ref reading := by
  refine addRoutine s.tally hw hi hm hb fun hu => ?_
  refine deliver_leaf hu (hs.grow (w.stock.grows_push _)) ?_ fun _ => rfl
  refine .call (k := w.slots) (w.stock.push_get _) hw.base_le ?_ ht fun _ hs => hs
  rw [Workspace.stock_declare, Stock.push_take]
  exact hm

theorem applyRest (schema : Json) (start : Nat) :
    Delivers n base w .arrays s reading (n.applyRest extend schema start s)
      (Node.restDemands (enrich.interpret n.options) schema start) := by
  simp only [Delivers, Node.applyRest, Node.restDemands]
  split
  · exact deliver_leaf hw hs (.size .items .le start fun _ hs => hs) fun _ => rfl
  · simp only [bind_assoc]
    refine newSlot hw fun slot hi hb => ?_
    have ht : ∀ t ∈ n.ref.slots, t.index < slot.index := hi ▸ hr
    refine step (conditions h hb (live_slot hi) schema) fun u body m hg hu hm => ?_
    have hg' := w.stock.grows_bump.trans hg
    have hl : slot.index < u.slots := live_slot hi |>.grow hg slot (by simp [ValueRef.slots])
    split
    · refine deliver hu (hs.grow hg') ((hm.cover (covers_slot ht)).everyItem hl ht fun _ hs => hs)
        fun i => ?_
      have := Expr.binds_everyItem n.ref slot body i
      omega
    · split
      · next hc =>
        rw [if_pos (hm.isTrue_iff.mp hc)]
        refine done hu (hs.grow hg') fun i => ?_
        omega
      · next hc =>
        rw [if_neg fun hk => hc (hm.isTrue_iff.mpr hk)]
        exact deliver_routine n hu (hs.grow hg') (r := .everyFrom start slot body) hl ht hm
          fun i => by simp only [Routine.item, Routine.body]; omega

theorem applyItems :
    Delivers n base w .arrays s reading (n.applyItems extend s)
      (n.itemsDemands (enrich.interpret n.options)) := by
  simp only [Node.applyItems, Node.itemsDemands]
  cases n.value with
  | array schemas => exact applyTuple n h hw hr hs schemas 0
  | _ => exact applyRest n h hw hr hs _ _

theorem applyPrefixItems :
    Delivers n base w .arrays s reading (n.applyPrefixItems extend s)
      (n.positionDemands (enrich.interpret n.options)) := by
  simp only [Delivers, Node.applyPrefixItems, Node.positionDemands, bind_assoc]
  exact lift fun schemas _ => applyTuple n h hw hr hs schemas 0

theorem applyAdditionalItems :
    Delivers n base w .arrays s reading (n.applyAdditionalItems extend s)
      (n.additionalItemsDemands (enrich.interpret n.options)) := by
  simp only [Node.applyAdditionalItems, Node.additionalItemsDemands]
  rcases n.sibling? "items" with _ | items
  · exact done hw hs fun _ => Nat.le_refl _
  · cases items with
    | array schemas => exact applyRest n h hw hr hs _ _
    | _ => exact done hw hs fun _ => Nat.le_refl _

theorem applyContains :
    Delivers n base w .arrays s reading (n.applyContains extend s)
      (n.containsDemands (enrich.interpret n.options)) := by
  simp only [Delivers, Node.applyContains, Node.containsDemands, bind_assoc]
  refine lift fun least _ => lift fun most _ => ?_
  refine newSlot hw fun slot hi hb => ?_
  have ht : ∀ t ∈ n.ref.slots, t.index < slot.index := hi ▸ hr
  refine step (conditions h hb (live_slot hi) n.value) fun u body m hg hu hm => ?_
  have hg' := w.stock.grows_bump.trans hg
  have hl : slot.index < u.slots := live_slot hi |>.grow hg slot (by simp [ValueRef.slots])
  split
  · refine deliver hu (hs.grow hg') ((hm.cover (covers_slot ht)).someItem hl ht fun _ hs => hs)
      fun i => ?_
    have := Expr.binds_someItem n.ref slot body i
    omega
  · split
    · exact done hu (hs.grow hg') fun i => by omega
    · exact deliver_routine n hu (hs.grow hg') (r := .count slot body (least.getD 1) most) hl ht hm
        fun i => by simp only [Routine.item, Routine.body]; omega

end Items

section Properties

variable {s : Scope} {reading : Reading} (n : Node)

theorem applyRequired (hw : w.Sound n.options base) (hs : s.Realises base w n.ref reading) :
    Delivers n base w .objects s reading (n.applyRequired s) n.requiredDemands := by
  simp only [Delivers, Node.applyRequired, Node.requiredDemands, bind_assoc, pure_bind]
  refine lift fun names _ => done hw (hs.pushAll .objects (realises_ownsAll n names)) fun i => ?_
  have hp := s.tally_pushAll .objects (names.map n.hasProperty) i
  rw [tally_hasProperty] at hp
  exact hp

variable (h : ExtendRefines n.options base extend enrich) (hw : w.Sound n.options base)
variable (hr : n.ref.Live w)
include h hw hr

theorem applyEachProperty (properties : Json.Members) (hs : s.Realises base w n.ref reading) :
    Delivers n base w .objects s reading (n.applyEachProperty extend properties s)
      (properties.mapM fun p => do
        let m ← enrich.interpret n.options p.2
        return if n.requiredNames.contains p.1 then m.property p.1
          else .disj [.negate (n.owns p.1), m.property p.1]) := by
  induction properties generalizing w s reading with
  | nil => exact done hw hs fun _ => Nat.le_refl _
  | cons p rest ih =>
    obtain ⟨name, schema⟩ := p
    simp only [Delivers, Node.applyEachProperty, List.mapM_cons, bind_assoc, pure_bind]
    refine step (conditions h hw (r := .property n.ref name) hr schema) fun u e m hg hu he => ?_
    split
    · next hc =>
      refine weaken (ih hu (hr.grow hg) ((hs.grow hg).push .objects he.property)) fun i => ?_
      have := s.tally_push .objects e i
      omega
    · next hc =>
      refine weaken (ih hu (hr.grow hg)
        ((hs.grow hg).push .objects (realises_guarded n name he.property))) fun i => ?_
      have := s.tally_push .objects (.disj [.negate (n.hasProperty name), e]) i
      have := binds_guarded n name e i
      omega

theorem applyProperties (hs : s.Realises base w n.ref reading) :
    Delivers n base w .objects s reading (n.applyProperties extend s)
      (n.propertyDemands (enrich.interpret n.options)) := by
  simp only [Delivers, Node.applyProperties, Node.propertyDemands, bind_assoc]
  exact lift fun properties _ => applyEachProperty n h hw hr properties hs

/-! ### Keys and their members -/

omit h hr in
theorem keyMatching (key : Slot) (source : String) :
    Refines n.options base w (fun _ => 0) (n.addPattern source) (n.keyMatching source)
      (fun _ _ => 0) fun u name m => Realises base u (key :: n.ref.slots) (keyView n.ref key) m
        (.matchesPattern (.slot key) name) := by
  have hp := addPattern source hw
  rcases hp.cases with ⟨name, u, p, hrun, hd, ha, hn⟩ | ⟨e, hrun, hd⟩
  · refine of_ok hrun (b := (Meaning.matching p).along Prod.fst) ?_ ha ?_
    · rw [Node.keyMatching, hd]
      rfl
    · refine Realises.along (.look (r := .slot key) (fun pool hp => ?_) (fun _ => rfl) ⟨p, hn⟩ ?_)
      · simp only [Expr.look?, Declarations.get_extended hp hn]
      · simp [ValueRef.slots]
  · refine of_error hrun ?_
    rw [Node.keyMatching, hd]
    rfl

omit hr in
theorem patternClauses {key : Slot} (hk : (ValueRef.member n.ref key).Live w)
    (patterns : Json.Members) :
    Refines n.options base w (fun _ => 0) (n.patternClauses extend key patterns)
      (n.keyClauses (enrich.interpret n.options) patterns) tally
      fun u es ms => List.Forall₂
        (Realises base u (key :: n.ref.slots) (keyView n.ref key)) ms es := by
  induction patterns generalizing w with
  | nil => exact done hw .nil fun _ => Nat.le_refl _
  | cons p rest ih =>
    obtain ⟨source, schema⟩ := p
    simp only [Node.patternClauses, Node.keyClauses, List.mapM_cons, bind_assoc, pure_bind]
    refine step (keyMatching n hw key source) fun u name key' hg hu hkey => ?_
    refine step (conditions h hu (hk.grow hg) schema) fun v e m hg' hv hm => ?_
    refine step (ih hv (hk.grow (hg.trans hg'))) fun x es ms hg'' hx hms => ?_
    refine done hx (.cons ?_ hms) fun i => ?_
    · have hm : Realises base v (key :: n.ref.slots) (keyView n.ref key) (m.along Prod.snd) e :=
        Realises.along (f := Prod.snd) hm
      exact .disj (.cons (hkey.grow (hg'.trans hg'')).negate (.cons (hm.grow hg'') .nil))
    · have hb := Expr.binds_disj [.negate (.matchesPattern (.slot key) name), e] i
      simp only [tally_cons, tally_nil, Expr.binds_negate,
        Expr.binds_leaf (e := .matchesPattern _ _) rfl] at hb
      rw [tally_cons]
      omega

omit h hr in
theorem patternTests (key : Slot) (sources : List String) :
    Refines n.options base w (fun _ => 0) (n.patternTests key sources)
      (sources.mapM n.keyMatching) tally
      fun u es ms => List.Forall₂
        (Realises base u (key :: n.ref.slots) (keyView n.ref key)) ms es := by
  induction sources generalizing w with
  | nil => exact done hw .nil fun _ => Nat.le_refl _
  | cons source rest ih =>
    simp only [Node.patternTests, List.mapM_cons]
    refine step (keyMatching n hw key source) fun u name m hg hu hm => ?_
    refine step (ih hu) fun v es ms hg' hv hms => ?_
    refine done hv (.cons (hm.grow hg') hms) fun i => ?_
    rw [tally_cons, Expr.binds_leaf rfl]
    omega

omit h hr in
theorem deliver_keys {key : Slot} {m : Meaning (Option Json × Option Json)} {body : Expr}
    {before : Nat → Nat} (hs : s.Realises base w n.ref reading) (hk : key.index < w.slots)
    (ht : ∀ t ∈ n.ref.slots, t.index < key.index)
    (hm : Realises base w (key :: n.ref.slots) (keyView n.ref key) m body)
    (hb : ∀ i, body.binds i + (key.once i + s.tally i) ≤ before i) :
    Refines n.options base w before (pure (s.push .objects (.everyKey n.ref key body)))
      (pure (reading.pushAll .objects [m.everyKey])) Scope.tally
      fun u s reading => s.Realises base u n.ref reading :=
  deliver hw hs (hm.everyKey hk ht fun _ hs => hs) fun i => by
    have := Expr.binds_everyKey n.ref key body i
    have := hb i
    omega

theorem applyPatternProperties (hs : s.Realises base w n.ref reading) :
    Delivers n base w .objects s reading (n.applyPatternProperties extend s)
      (n.patternPropertyDemands (enrich.interpret n.options)) := by
  simp only [Delivers, Node.applyPatternProperties, Node.patternPropertyDemands, bind_assoc,
    pure_bind]
  refine lift fun patterns _ => newSlot hw fun key hi hb => ?_
  have hk := live_member n hr hi
  refine step (patternClauses n h hb hk patterns) fun u es ms hg hu hms => ?_
  refine deliver_keys n hu (hs.grow (w.stock.grows_bump.trans hg))
    (hk.grow hg key (by simp [ValueRef.slots])) (hi ▸ hr) (.conj hms) fun i => ?_
  have := Expr.binds_conj es i
  omega

theorem applyPropertyNames (hs : s.Realises base w n.ref reading) :
    Delivers n base w .objects s reading (n.applyPropertyNames extend s)
      (n.propertyNameDemands (enrich.interpret n.options)) := by
  simp only [Delivers, Node.applyPropertyNames, Node.propertyNameDemands, bind_assoc, pure_bind]
  refine newSlot hw fun key hi hb => ?_
  have ht : ∀ t ∈ n.ref.slots, t.index < key.index := hi ▸ hr
  refine step (conditions h hb (live_slot hi) n.value) fun u e m hg hu hm => ?_
  refine deliver_keys n hu (hs.grow (w.stock.grows_bump.trans hg))
    (live_slot hi |>.grow hg key (by simp [ValueRef.slots])) ht
    (Realises.along (f := Prod.fst) (hm.cover (covers_slot ht))) fun i => by omega

theorem applyAdditionalProperties (hs : s.Realises base w n.ref reading) :
    Delivers n base w .objects s reading (n.applyAdditionalProperties extend s)
      (n.additionalPropertyDemands (enrich.interpret n.options)) := by
  simp only [Delivers, Node.applyAdditionalProperties, Node.additionalPropertyDemands, bind_assoc,
    pure_bind]
  refine newSlot hw fun key hi hb => ?_
  have hk := live_member n hr hi
  refine step (patternTests n hb key _) fun u es ms hg hu hms => ?_
  have finish (v : Workspace) (e : Expr) (m : Meaning (Option Json)) (hgv : u.stock.Grows v.stock)
      (hv : v.Sound n.options base)
      (hm : Realises base v (key :: n.ref.slots) (ValueRef.member n.ref key).subject m e) :=
    deliver_keys n hv (hs.grow (w.stock.grows_bump.trans (hg.trans hgv)))
      (hk.grow (hg.trans hgv) key (by simp [ValueRef.slots])) (hi ▸ hr)
      (realises_spare n (Realises.grow_all hms hgv) hm)
      (fun i => Nat.add_le_add_right (binds_spare n key es e i) (key.once i + s.tally i))
  have general (schema : Json) :
      Refines n.options base u (fun i => tally es i + (key.once i + s.tally i))
        (n.condition extend schema (.member n.ref key) >>= _)
        (enrich.interpret n.options schema >>= _) Scope.tally _ :=
    step (conditions h hu (hk.grow hg) schema) fun v e m hgv hv hm =>
      (finish v e m hgv hv hm).weaken fun i => Nat.le_of_eq (Nat.add_assoc _ _ _)
  cases n.value with
  | bool b =>
    cases b
    · refine weaken (finish u (.const false) (.const false) (.refl u.stock) hu (.constant false))
        fun i => Nat.le_of_eq ?_
      rw [Expr.binds_leaf rfl, Nat.zero_add]
    · exact general _
  | _ => exact general _

theorem dependency (keyword : String) (value : Json) :
    Refines n.options base w (fun _ => 0) (n.dependency extend keyword value)
      (n.dependencyMeaning (enrich.interpret n.options) keyword value) Expr.binds
      fun u e m => Realises base u n.ref.slots n.ref.subject m e := by
  have general := conditions h hw hr value
  cases value with
  | array items =>
    refine lift fun names _ => done hw (.conj (realises_ownsAll n names)) fun i => ?_
    have hb := Expr.binds_conj (names.map n.hasProperty) i
    rwa [tally_hasProperty] at hb
  | _ => exact general

theorem applyDependencies (keyword : String) (check : Json → Except CompileError Unit)
    (triggers : Json.Members) (hs : s.Realises base w n.ref reading) :
    Delivers n base w .objects s reading (n.applyDependencies extend keyword check triggers s)
      (triggers.mapM fun p => do
        check p.2
        let m ← n.dependencyMeaning (enrich.interpret n.options) keyword p.2
        return .disj [.negate (n.owns p.1), m]) := by
  induction triggers generalizing w s reading with
  | nil => exact done hw hs fun _ => Nat.le_refl _
  | cons p rest ih =>
    obtain ⟨trigger, value⟩ := p
    simp only [Delivers, Node.applyDependencies, List.mapM_cons, bind_assoc, pure_bind]
    refine lift fun _ _ => ?_
    refine step (dependency n h hw hr keyword value) fun u e m hg hu he => ?_
    refine weaken (ih hu (hr.grow hg)
      ((hs.grow hg).push .objects (realises_guarded n trigger he))) fun i => ?_
    have := s.tally_push .objects (.disj [.negate (n.hasProperty trigger), e]) i
    have := binds_guarded n trigger e i
    omega

theorem applyDependencyMap (keyword : String) (check : Json → Except CompileError Unit)
    (hs : s.Realises base w n.ref reading) :
    Delivers n base w .objects s reading (n.applyDependencyMap extend keyword check s)
      (n.dependencyDemands (enrich.interpret n.options) keyword check) := by
  simp only [Delivers, Node.applyDependencyMap, Node.dependencyDemands, bind_assoc]
  exact lift fun triggers _ => applyDependencies n h hw hr keyword check triggers hs

end Properties

section Combinators

variable {s : Scope} {reading : Reading} (n : Node)
variable (h : ExtendRefines n.options base extend enrich) (hw : w.Sound n.options base)
variable (hr : n.ref.Live w) (hs : s.Realises base w n.ref reading)
include h hw hr hs

theorem branches (schemas : List Json) :
    Refines n.options base w (fun _ => 0) (n.branches extend s schemas)
      (n.branchMeanings enrich reading schemas) tally
      fun u es ms => List.Forall₂ (Realises base u n.ref.slots n.ref.subject) ms es := by
  induction schemas generalizing w with
  | nil => exact done hw .nil fun _ => Nat.le_refl _
  | cons schema rest ih =>
    simp only [Node.branches, Node.branchMeanings, List.mapM_cons, bind_assoc, pure_bind]
    refine step (h w schema n.ref s.fork reading.fork hw hr hs.fork)
      fun u branch meaning hg hu hb => ?_
    refine step (ih hu (hr.grow hg) (hs.grow hg)) fun v es ms hgv hv hms => ?_
    refine done hv (.cons ((hb.grow hgv).finalize n.options) hms) fun i => ?_
    have := branch.binds_finalize n.options n.ref i
    rw [tally_cons]
    omega

theorem applyNot :
    Delivers n base w .always s reading (n.applyNot extend s)
      (n.notDemands (enrich.interpret n.options)) := by
  simp only [Delivers, Node.applyNot, Node.notDemands, bind_assoc, pure_bind]
  refine step (conditions h hw hr n.value) fun u e m hg hu he => ?_
  exact deliver hu (hs.grow hg) he.negate fun i =>
    Nat.le_of_eq (by rw [Expr.binds_negate])

theorem merge (schemas : List Json) :
    Refines n.options base w s.tally (n.merge extend schemas s)
      (schemas.foldlM (fun s schema => enrich schema s) reading) Scope.tally
      fun u s reading => s.Realises base u n.ref reading := by
  induction schemas generalizing w s reading with
  | nil => exact done hw hs fun _ => Nat.le_refl _
  | cons schema rest ih =>
    refine bind (h w schema n.ref s reading hw hr hs) fun u s' reading' hg hu hs' => ?_
    exact ih hu (hr.grow hg) hs'

end Combinators

end Refines

end SchemaLogic
