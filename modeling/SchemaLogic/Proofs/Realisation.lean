import Mathlib.Data.List.Forall2
import SchemaLogic.Proofs.Meaning
import SchemaLogic.Proofs.Placement

/-! # Conditions and their meanings

Folding keeps what a condition says, and a placed and folded condition realises a meaning: it is
constant exactly if the meaning is, and it says of every value what the meaning says. -/
namespace SchemaLogic

namespace Expr

/-! ## Folding keeps what conditions say -/

section Holds

variable {input : Instance} {pool : Declarations} {judge : Judge} {env : Env}

theorem holds_connective (b : Bool) (es : List Expr) :
    (connective b es).holds input pool judge env =
      quantified b (·.holds input pool judge env) es := by
  cases b <;> simp [connective, holds, quantified, List.any_map, List.all_map]

theorem holds_parts {b : Bool} {e : Expr} (h : e.const? ≠ some !b) :
    quantified b (·.holds input pool judge env) (e.parts b) = e.holds input pool judge env := by
  cases e with
  | const c => cases b <;> cases c <;> simp_all [const?, parts, quantified, holds]
  | all es =>
    cases b <;> simp [parts, quantified, holds, List.all_map]
  | any es =>
    cases b <;> simp [parts, quantified, holds, List.any_map]
  | _ => cases b <;> simp [parts, quantified]

theorem quantified_flatMap {α β : Type} (b : Bool) (p : β → Bool) (f : α → List β) (l : List α) :
    quantified b p (l.flatMap f) = quantified b (fun a => quantified b p (f a)) l := by
  cases b <;> simp [quantified, List.all_flatMap, List.any_flatMap]

theorem quantified_congr {α : Type} (b : Bool) {p q : α → Bool} {l : List α}
    (h : ∀ a ∈ l, p a = q a) : quantified b p l = quantified b q l := by
  induction l with
  | nil => rfl
  | cons a l ih =>
    have hl := ih fun c hc => h c (.tail _ hc)
    cases b <;> simp_all [quantified]

theorem holds_collapse (b : Bool) {wrap : List Expr → Expr} {es : List Expr}
    (hw : (wrap es).holds input pool judge env = quantified b (·.holds input pool judge env) es) :
    (collapse b wrap es).holds input pool judge env =
      quantified b (·.holds input pool judge env) es := by
  fun_cases collapse b wrap es with
  | case1 => cases b <;> simp [holds, quantified]
  | case2 e => cases b <;> simp [quantified]
  | case3 => exact hw

theorem holds_joined (b : Bool) (es : List Expr) :
    (joined b es).holds input pool judge env =
      quantified b (·.holds input pool judge env) es := by
  unfold joined
  split
  · next h =>
    obtain ⟨e, he, hc⟩ : ∃ e ∈ es, e.const? = some !b := by simpa using h
    have hh : e.holds input pool judge env = !b := by rw [eq_const_of_const? hc, holds]
    cases b <;> simpa [quantified, holds] using ⟨e, he, hh⟩
  · next h =>
    have hne : ∀ e ∈ es, e.const? ≠ some !b := by simpa using h
    have hq : quantified b (·.holds input pool judge env) (es.flatMap (parts b)) =
        quantified b (·.holds input pool judge env) es := by
      rw [quantified_flatMap]
      exact quantified_congr b fun e he => holds_parts (hne e he)
    rw [← hq]
    exact holds_collapse b (holds_connective b _)

theorem holds_negate (e : Expr) :
    e.negate.holds input pool judge env = !e.holds input pool judge env := by
  fun_cases negate e <;> simp [holds, look?]

theorem holds_exactlyOne (es : List Expr) :
    (collapse false .exactlyOne es).holds input pool judge env =
      (es.countP (·.holds input pool judge env) == 1) := by
  fun_cases collapse false .exactlyOne es with
  | case1 => rfl
  | case2 e =>
    simp only [List.countP_singleton]
    cases e.holds input pool judge env <;> rfl
  | case3 => simp [holds, List.count, List.countP_map, Function.comp_def]

theorem holds_one (es : List Expr) :
    (one es).holds input pool judge env =
      (es.countP (·.holds input pool judge env) == 1) := by
  rw [countP_constants (p := (·.holds input pool judge env)) fun _ => rfl]
  unfold one
  split
  · next h => rw [h, Nat.add_zero, holds_exactlyOne]
  · next h =>
    rw [h, conj_eq_joined, holds_joined, Bool.eq_iff_iff, beq_iff_eq, Nat.add_eq_right,
      List.countP_eq_zero]
    simp only [quantified, if_true, List.all_map, List.all_eq_true, Function.comp_apply,
      holds_negate, Bool.not_eq_true', Bool.not_eq_true]
  · next h₀ h₁ =>
    have h₀ : es.countP isTrue ≠ 0 := h₀
    have h₁ : es.countP isTrue ≠ 1 := h₁
    rw [holds, eq_comm, beq_eq_false_iff_ne]
    omega

theorem holds_looped (b : Bool) {loop : Expr → Expr} {rounds : Expr} (body : Expr)
    (h : rounds.holds input pool judge env = (loop (.const !b)).holds input pool judge env) :
    (looped b loop rounds body).holds input pool judge env =
      if body.const? = some b then b else (loop body).holds input pool judge env := by
  unfold looped
  split
  · next c hc =>
    rw [hc]
    split
    · next hb => simp [hb, holds]
    · next hb =>
      have : c = !b := by cases b <;> cases c <;> simp_all
      rw [if_neg (by simpa using hb), h, eq_const_of_const? hc, this]
  · next hc => rw [if_neg (by simp [hc])]

end Holds

end Expr

def ValueRef.subject (r : ValueRef) (input : Instance) (env : Env) : Option Json :=
  (r.value input env).subject

/-- A condition in a workspace says what a meaning says of the part of the input and the
environment that `view` picks. -/
structure Realises {α : Type} (base : Nat) (w : Stock) (visible : List Slot)
    (view : Instance → Env → α) (m : Meaning α) (e : Expr) : Prop where
  placed : Expr.Everywhere (Expr.Placed base w) visible e
  folded : e.Folded
  const : e.const? = m.const?
  means : ∀ pool : Declarations, w.pool <+: pool → ∀ input env,
    e.truth pool input env = m.holds (view input env)

theorem map_eq_of_forall₂ {α β γ : Type} {R : α → β → Prop} {f : α → γ} {g : β → γ}
    {as : List α} {bs : List β} (h : List.Forall₂ R as bs) (hr : ∀ a b, R a b → f a = g b) :
    as.map f = bs.map g := by
  induction h with
  | nil => rfl
  | cons hab _ ih => rw [List.map_cons, List.map_cons, hr _ _ hab, ih]

namespace Realises

variable {α β : Type} {base : Nat} {w u : Stock} {visible : List Slot}
variable {view : Instance → Env → α} {m : Meaning α} {e : Expr}
variable {ms : List (Meaning α)} {es : List Expr}

theorem grow (h : Realises base w visible view m e) (hg : w.Grows u) :
    Realises base u visible view m e where
  placed := Expr.everywhere_grow hg h.placed
  folded := h.folded
  const := h.const
  means pool hp := h.means pool (hg.pool.trans hp)

theorem cover (h : Realises base w visible view m e) {more : List Slot}
    (hc : Expr.Covers visible more) : Realises base w more view m e :=
  { h with placed := Expr.everywhere_cover hc h.placed }

theorem congr (h : Realises base w visible view m e) {other : Meaning α}
    (hc : m.const? = other.const?) (hh : ∀ a, m.holds a = other.holds a) :
    Realises base w visible view other e where
  placed := h.placed
  folded := h.folded
  const := h.const.trans hc
  means pool hp input env := (h.means pool hp input env).trans (hh _)

theorem along {f : α → β} {m : Meaning β}
    (h : Realises base w visible (fun i env => f (view i env)) m e) :
    Realises base w visible view (m.along f) e where
  placed := h.placed
  folded := h.folded
  const := by rw [h.const, Meaning.const?_along]
  means pool hp input env := by rw [h.means pool hp, Meaning.holds_along]

theorem constant (b : Bool) : Realises base w visible view (.const b) (.const b) where
  placed := .leaf (Expr.transparent_placed.const visible b) rfl
  folded := Expr.folded_const b
  const := rfl
  means _ _ _ _ := rfl

theorem isTrue_iff (h : Realises base w visible view m e) :
    e.isTrue = true ↔ m.const? = some true := by
  rw [Expr.isTrue_eq, h.const, beq_iff_eq]

theorem map_const? (h : List.Forall₂ (Realises base w visible view) ms es) :
    ms.map Meaning.const? = es.map Expr.const? :=
  map_eq_of_forall₂ h fun _ _ hr => hr.const.symm

theorem map_truth (h : List.Forall₂ (Realises base w visible view) ms es) {pool : Declarations}
    (hp : w.pool <+: pool) (input : Instance) (env : Env) :
    ms.map (·.holds (view input env)) = es.map (·.truth pool input env) :=
  map_eq_of_forall₂ h fun _ _ hr => (hr.means pool hp input env).symm

theorem forall_left {P : Expr → Prop} (h : List.Forall₂ (Realises base w visible view) ms es)
    (hr : ∀ m e, Realises base w visible view m e → P e) : ∀ e ∈ es, P e := by
  induction h with
  | nil => simp
  | cons hme _ ih => exact List.forall_mem_cons.mpr ⟨hr _ _ hme, ih⟩

theorem grow_all (h : List.Forall₂ (Realises base w visible view) ms es) (hg : w.Grows u) :
    List.Forall₂ (Realises base u visible view) ms es :=
  h.imp fun _ _ hr => hr.grow hg

theorem joined (b : Bool) (h : List.Forall₂ (Realises base w visible view) ms es) :
    Realises base w visible view (.joined b ms) (Expr.joined b es) := by
  have hf := Expr.folded_joined (b := b) (forall_left h fun _ _ hr => hr.folded)
  refine ⟨Expr.everywhere_joined Expr.transparent_placed b (forall_left h fun _ _ hr => hr.placed),
    hf.1, ?_, fun pool hp input env => ?_⟩
  · have hc := map_const? h
    have hany := congrArg (·.any (· == some !b)) hc
    have hall := congrArg (·.all (·.isSome)) hc
    simp only [List.any_map, List.all_map, Function.comp_def] at hany hall
    rw [hf.2, Meaning.joined, Meaning.const?_known, hany, hall]
  · have ht := map_truth h hp input env
    rw [Meaning.holds_joined]
    change (Expr.joined b es).holds input pool (pool.judge input) env = _
    rw [Expr.holds_joined]
    cases b
    · simpa [quantified, Expr.truth, List.any_map, Function.comp_def] using
        (congrArg (·.any id) ht).symm
    · simpa [quantified, Expr.truth, List.all_map, Function.comp_def] using
        (congrArg (·.all id) ht).symm

theorem conj (h : List.Forall₂ (Realises base w visible view) ms es) :
    Realises base w visible view (.conj ms) (.conj es) := by
  rw [Expr.conj_eq_joined]
  exact joined true h

theorem disj (h : List.Forall₂ (Realises base w visible view) ms es) :
    Realises base w visible view (.disj ms) (.disj es) := by
  rw [Expr.disj_eq_joined]
  exact joined false h

theorem negate (h : Realises base w visible view m e) :
    Realises base w visible view m.negate e.negate := by
  have hf := Expr.folded_negate h.folded
  refine ⟨Expr.everywhere_negate Expr.transparent_placed h.placed, hf.1, ?_,
    fun pool hp input env => ?_⟩
  · rw [hf.2, h.const]
    cases m <;> rfl
  · have ht := h.means pool hp input env
    rw [Meaning.holds_negate, ← ht]
    exact Expr.holds_negate e

theorem one (h : List.Forall₂ (Realises base w visible view) ms es) :
    Realises base w visible view (.one ms) (.one es) := by
  have hf := Expr.folded_one (forall_left h fun _ _ hr => hr.folded)
  refine ⟨Expr.everywhere_one Expr.transparent_placed (forall_left h fun _ _ hr => hr.placed),
    hf.1, ?_, fun pool hp input env => ?_⟩
  · have hc := map_const? h
    have hcount := congrArg (·.countP (· == some true)) hc
    have hall := congrArg (·.all (·.isSome)) hc
    simp only [List.countP_map, List.all_map, Function.comp_def] at hcount hall
    rw [hf.2, Meaning.one, Meaning.const?_known, hcount, hall]
  · have ht := congrArg (·.countP id) (map_truth h hp input env)
    simp only [List.countP_map, Function.comp_def, id] at ht
    rw [Meaning.holds_one, ht]
    exact Expr.holds_one es

/-! ### Conditions on one value -/

section Values

variable {r : ValueRef} {f : Instance → Bool}

theorem look (hl : ∀ pool : Declarations, w.pool <+: pool → e.look? pool = some (r, f))
    (hk : Instance.KeyBlind f) (hn : e.Named w.pool) (hr : ∀ s ∈ r.slots, s ∈ visible) :
    Realises base w visible r.subject (.look f) e := by
  have here := hl w.pool List.prefix_rfl
  obtain ⟨href, ho, hb, hc⟩ := Expr.ref?_look here
  have hnormal : e.Normal := Expr.normal_look here
  refine ⟨Expr.placed_leaf (fun s hs => ?_) hn ho hb hc, Or.inr hnormal, hnormal.const?_eq_none,
    fun pool hp input env => ?_⟩
  · obtain rfl : r = s := Option.some.inj (href.symm.trans hs)
    exact hr
  · exact (Expr.holds_look (hl pool hp) _ env).trans (hk.apply _).symm

theorem plain {e : Expr} (hl : ∀ pool : Declarations, e.look? pool = some (r, f))
    (hn : ∀ pool, e.Named pool) (hk : Instance.KeyBlind f) (hr : ∀ s ∈ r.slots, s ∈ visible) :
    Realises base w visible r.subject (.look f) e :=
  look (fun pool _ => hl pool) hk (hn _) hr

theorem present (hr : ∀ s ∈ r.slots, s ∈ visible) :
    Realises base w visible r.subject (.look Instance.isPresent) (.present r) :=
  plain (fun _ => rfl) (fun _ => trivial) (fun _ => rfl) hr

theorem absent (hr : ∀ s ∈ r.slots, s ∈ visible) :
    Realises base w visible r.subject (.look fun i => !i.isPresent) (.absent r) :=
  plain (fun _ => rfl) (fun _ => trivial) (fun _ => rfl) hr

theorem size (measure : Measure) (op : CmpOp) (limit : Nat) (hr : ∀ s ∈ r.slots, s ∈ visible) :
    Realises base w visible r.subject (.size measure op limit) (.size r measure op limit) := by
  refine plain (fun _ => rfl) (fun _ => trivial) (fun k => ?_) hr
  simp only [Instance.keyBlind_measure? measure k]

theorem property {name : String} {m : Meaning (Option Json)}
    (h : Realises base w visible (ValueRef.property r name).subject m e) :
    Realises base w visible r.subject (m.property name) e := by
  have hv : (ValueRef.property r name).subject = fun input env =>
      (Instance.ofOption (r.subject input env)).entries?.bind (·.get? name) := by
    funext input env
    simp [ValueRef.subject, ValueRef.value, Instance.property]
  rw [hv] at h
  exact h.along

theorem index {i : Nat} {m : Meaning (Option Json)}
    (h : Realises base w visible (ValueRef.index r i).subject m e) :
    Realises base w visible r.subject (m.index i) e := by
  have hv : (ValueRef.index r i).subject = fun input env =>
      (Instance.ofOption (r.subject input env)).items?.bind (·[i]?) := by
    funext input env
    simp [ValueRef.subject, ValueRef.value, Instance.index]
  rw [hv] at h
  exact h.along

end Values

/-! ### Loops -/

section Loops

variable {r : ValueRef} {slot : Slot} {body : Expr}

theorem looped {b : Bool} {loop : Expr → Expr} {rounds : Expr} {inner : List Slot}
    {part : Instance → Env → β} {m : Meaning β} {step : (β → Bool) → α → Bool} {f : α → Bool}
    (h : Realises base w inner part m body) (hr : Realises base w visible view (.test f) rounds)
    (hl : Expr.Everywhere (Expr.Placed base w) visible (loop body))
    (hn : body.Normal → (loop body).Normal)
    (hc : ∀ pool input env, rounds.truth pool input env = (loop (.const !b)).truth pool input env)
    (hs : ∀ pool : Declarations, w.pool <+: pool → ∀ input env,
      (loop body).truth pool input env = step m.holds (view input env)) :
    Realises base w visible view (m.looped b step) (Expr.looped b loop rounds body) := by
  have hf := Expr.folded_looped (b := b) (hr.folded.normal hr.const) hn h.folded
  refine ⟨Expr.everywhere_looped Expr.transparent_placed b hr.placed hl, hf.1, ?_,
    fun pool hp input env => ?_⟩
  · rw [hf.2, h.const, Meaning.looped, Meaning.const?_known]
  · rw [Meaning.looped, Meaning.holds_known, ← hs pool hp, ← h.const]
    refine (Expr.holds_looped b body (hc pool input env)).trans ?_
    split <;> rfl

/-- A loop is placed if its body is placed with the loop variable in view. -/
theorem everywhere_loop {loop : Expr} (hb : loop.binder? = some slot) (hv : loop.ref? = some r)
    (ho : loop.operands = [body]) (hn : ∀ pool, loop.Named pool) (hc : ∀ n r, loop ≠ .call n r)
    (hl : slot.index < w.slots) (ht : ∀ t ∈ visible, t.index < slot.index)
    (hr : ∀ s ∈ r.slots, s ∈ visible)
    (h : Expr.Everywhere (Expr.Placed base w) (slot :: visible) body) :
    Expr.Everywhere (Expr.Placed base w) visible loop := by
  refine .intro ⟨fun s hs => ?_, hn _, fun s hs => ?_, fun n r he => (hc n r he).elim⟩ ?_
  · obtain rfl : r = s := Option.some.inj (hv.symm.trans hs)
    exact hr
  · obtain rfl : slot = s := Option.some.inj (hb.symm.trans hs)
    exact ⟨hl, ht⟩
  · simpa [ho, Expr.scope, hb] using h

variable (hl : slot.index < w.slots) (ht : ∀ t ∈ visible, t.index < slot.index)
variable (hr : ∀ s ∈ r.slots, s ∈ visible)
include hl ht hr

theorem everyItem {m : Meaning (Option Json)}
    (h : Realises base w (slot :: visible) (ValueRef.slot slot).subject m body) :
    Realises base w visible r.subject m.everyItem (.everyItem r slot body) := by
  rw [Expr.everyItem_eq_looped]
  refine looped h (size .items .eq 0 hr)
    (everywhere_loop rfl rfl rfl (fun _ => trivial) (by simp) hl ht hr h.placed)
    (fun hb => .intro trivial (by simpa [Expr.operands] using hb))
    (fun pool input env => ?_) (fun pool hp input env => ?_)
  · simp only [Expr.truth, Expr.holds, Expr.look?, Option.any_some, Instance.measure?]
    cases (r.value input env).items? with
    | none => rfl
    | some items => cases items <;> simp [CmpOp.holds]
  · have hm (x : Json) := h.means pool hp input (Function.update env slot.index (.value x))
    simp only [Expr.truth, ValueRef.subject, ValueRef.value, Function.update_self,
      Instance.subject_value] at hm
    simp only [Expr.truth, Expr.holds, hm, ValueRef.subject, Instance.items?_subject]

theorem someItem {m : Meaning (Option Json)}
    (h : Realises base w (slot :: visible) (ValueRef.slot slot).subject m body) :
    Realises base w visible r.subject m.someItem (.someItem r slot body) := by
  rw [Expr.someItem_eq_looped]
  refine looped h (size .items .gt 0 hr)
    (everywhere_loop rfl rfl rfl (fun _ => trivial) (by simp) hl ht hr h.placed)
    (fun hb => .intro trivial (by simpa [Expr.operands] using hb))
    (fun pool input env => ?_) (fun pool hp input env => ?_)
  · simp only [Expr.truth, Expr.holds, Expr.look?, Option.any_some, Instance.measure?]
    cases (r.value input env).items? with
    | none => rfl
    | some items => cases items <;> simp [CmpOp.holds, Nat.compare_eq_gt]
  · have hm (x : Json) := h.means pool hp input (Function.update env slot.index (.value x))
    simp only [Expr.truth, ValueRef.subject, ValueRef.value, Function.update_self,
      Instance.subject_value] at hm
    simp only [Expr.truth, Expr.holds, hm, ValueRef.subject, Instance.items?_subject]

/-- The body of a loop over keys sees the key and the member under it. -/
theorem everyKey {m : Meaning (Option Json × Option Json)}
    (h : Realises base w (slot :: visible)
      (fun input env =>
        ((ValueRef.slot slot).subject input env, (ValueRef.member r slot).subject input env))
      m body) :
    Realises base w visible r.subject m.everyKey (.everyKey r slot body) := by
  rw [Expr.everyKey_eq_looped]
  refine looped h (size .keys .eq 0 hr)
    (everywhere_loop rfl rfl rfl (fun _ => trivial) (by simp) hl ht hr h.placed)
    (fun hb => .intro trivial (by simpa [Expr.operands] using hb))
    (fun pool input env => ?_) (fun pool hp input env => ?_)
  · simp only [Expr.truth, Expr.holds, Expr.look?, Option.any_some, Instance.measure?]
    cases (r.value input env).entries? with
    | none => rfl
    | some entries =>
      have hk : entries.size = entries.keys.length := by
        cases entries <;> simp [Entries.size, Entries.keys]
      cases hks : entries.keys <;> simp [CmpOp.holds, hk, hks]
  · have hv (x : Instance) : r.value input (Function.update env slot.index x) = r.value input env :=
      ValueRef.value_congr fun s hs =>
        Function.update_of_ne (Nat.ne_of_lt (ht s (hr s hs))) x env
    have hm (k : Key) := h.means pool hp input (Function.update env slot.index (.key k))
    simp only [Expr.truth, ValueRef.subject, ValueRef.value, Function.update_self, hv,
      Instance.subject_key] at hm
    simp only [Expr.truth, Expr.holds, hm, ValueRef.subject, Instance.entries?_subject,
      Instance.member_subject]

end Loops

/-! ### Calls -/

/-- A body that names earlier declarations only does not care for later routines. -/
theorem holds_judgesBelow {n k : Nat} {pool : Declarations} {body : Expr}
    (h : Expr.Everywhere (Expr.Placed base ⟨w.pool.take n, k⟩) visible body)
    (hp : w.pool <+: pool) (input : Instance) (env : Env) :
    body.holds input pool (Routine.judgesBelow input pool n) env = body.truth pool input env := by
  refine Expr.holds_congr_call (h.mono fun {u e} he => ?_) env
  intro j r hj i
  subst hj
  obtain ⟨g, hg⟩ := he.named
  obtain ⟨hjn, hg⟩ : j < n ∧ w.pool[j]? = some (.routine g) := by
    simpa [List.getElem?_take] using hg
  have hg := Declarations.get_extended hp hg
  rw [Declarations.judge, Routine.judgesBelow_of_lt hjn hg,
    Routine.judgesBelow_of_lt (List.getElem?_eq_some_iff.mp hg).1 hg]

theorem call {f : Routine} {n k : Nat} {r : ValueRef} {m : Meaning (Option Json)}
    (hf : w.pool[n]? = some (.routine f)) (hb : base ≤ n)
    (h : Realises base ⟨w.pool.take n, k⟩ [f.item] (ValueRef.slot f.item).subject m f.body)
    (ht : ∀ t ∈ visible, t.index < f.item.index) (hr : ∀ s ∈ r.slots, s ∈ visible) :
    Realises base w visible r.subject
      (.look fun i => i.items?.any (f.asks fun x => m.holds (some x))) (.call n r) := by
  refine ⟨.leaf ⟨fun s hs => ?_, ⟨f, hf⟩, by simp [Expr.binder?], fun j q he => ?_⟩ rfl,
    Or.inr (.leaf trivial rfl), rfl, fun pool hp input env => ?_⟩
  · obtain rfl : r = s := Option.some.inj hs
    exact hr
  · obtain ⟨rfl, rfl⟩ : n = j ∧ r = q := by simpa using he
    refine ⟨hb, fun g hg => ?_⟩
    rw [hf] at hg
    cases hg
    exact ht
  · have hf' := Declarations.get_extended hp hf
    have hm (x : Json) : f.body.holds input pool (Routine.judgesBelow input pool n)
        (Function.update (fun _ => .missing) f.item.index (.value x)) = m.holds (some x) := by
      have htake : w.pool.take n <+: w.pool := List.take_prefix n _
      rw [holds_judgesBelow h.placed hp, h.means pool (htake.trans hp)]
      simp [ValueRef.subject, ValueRef.value]
    have hj : f.judges input pool (Routine.judgesBelow input pool n) =
        f.asks fun x => m.holds (some x) := by
      funext items
      simp only [Routine.judges, hm]
    change Routine.judgesBelow input pool pool.length n (r.value input env) = _
    rw [Routine.judgesBelow_of_lt (List.getElem?_eq_some_iff.mp hf').1 hf']
    simp only [hj, Meaning.holds_look, ValueRef.subject, Instance.items?_subject]

end Realises

end SchemaLogic
