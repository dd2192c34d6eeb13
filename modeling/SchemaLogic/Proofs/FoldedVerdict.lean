import SchemaLogic.Proofs.ScopeVerdict

/-! # Folding never changes a verdict

The folding constructors take any conditions, folded or not. Their verdicts are those of the
operators that they stand for, as long as no operand reads a loop variable bound inside another
one. -/
namespace SchemaLogic

namespace Expr

variable {pool : Declarations} {e : Expr} {i : Nat}

theorem reads_not : (Expr.not e).Reads pool i ↔ e.Reads pool i := by
  simp [reads_iff (e := .not e), ref?, binder?, operands]

theorem writes_not : (Expr.not e).Writes pool i ↔ e.Writes pool i := by
  simp [writes_iff (e := .not e), binder?, operands]

theorem reads_negate : (negate e).Reads pool i ↔ e.Reads pool i := by
  fun_cases negate e with
  | case1 b => simp [reads_iff, ref?, operands]
  | case2 e => exact reads_not.symm
  | case3 r => simp [reads_iff, ref?, operands]
  | case4 r => simp [reads_iff, ref?, operands]
  | case5 e => exact reads_not

theorem writes_negate : (negate e).Writes pool i ↔ e.Writes pool i := by
  fun_cases negate e with
  | case1 b => simp [writes_iff, binder?, operands]
  | case2 e => exact writes_not.symm
  | case3 r => simp [writes_iff, binder?, operands]
  | case4 r => simp [writes_iff, binder?, operands]
  | case5 e => exact writes_not

theorem Apart.negate {f : Expr} (h : e.Apart pool f) : e.negate.Apart pool f.negate := by
  intro i
  rw [reads_negate, reads_negate, writes_negate, writes_negate]
  exact h i

theorem apart_input (e : Expr) : (Expr.present .input).Apart pool e := by
  intro i
  constructor
  · intro _ hw
    simp [writes_iff, binder?, operands] at hw
  · intro hr
    simp [reads_iff, ref?, operands, ValueRef.slots] at hr

end Expr

/-! ## Loops over a settled condition -/

namespace Loop

variable (slot : Slot) (b : Bool) (elements : List Instance) (row : Slots)

theorem every_give :
    (every slot (Verdict.give b) elements row).1 = (b || elements.isEmpty) := by
  induction elements generalizing row with
  | nil => simp [every]
  | cons x rest ih =>
    rw [every_cons]
    cases b with
    | false => rfl
    | true => exact ih _

theorem any_give :
    (any slot (Verdict.give b) elements row).1 = (b && !elements.isEmpty) := by
  induction elements generalizing row with
  | nil => simp [any]
  | cons x rest ih =>
    rw [any_cons]
    cases b with
    | false => exact ih _
    | true => rfl

end Loop

namespace Setting

variable {x : Setting} {es : List Expr}

/-! ## Connectives -/

theorem holds_joined (b : Bool) (h : x.Undisturbed es) :
    x.holds (.joined b es) = quantified b x.holds es := by
  have weighed := (weighs_conditions h b).joined.verdict x.row ⟨rfl, fun _ _ => rfl⟩
  rw [Meaning.holds_joined] at weighed
  rw [holds, weighed]
  cases b <;> simp [quantified, List.all_map, List.any_map, Function.comp_def, holds_stand]

/-- Counting goes on in a row that looks the same to the conditions still to come. -/
theorem verdict_evalOne (h : x.Undisturbed es) (held : Bool) {row : Slots}
    (hr : SameAt (x.Seen es) row x.row) :
    (Expr.evalOne x.input x.pool (Routine.below x.input x.pool x.depth) held es row).1 =
      (es.countP x.holds + held.toNat == 1) := by
  induction es generalizing held row with
  | nil => cases held <;> rfl
  | cons e es ih =>
    have hboth : x.Undisturbed ([e] ++ es) := h
    obtain ⟨-, hrest, apart⟩ := hboth.append
    have first : x.Yields [e] (x.run e) (x.holds e) := yields_condition e
    have hverdict : (x.run e row).1 = x.holds e :=
      first.verdict row ⟨hr.size, fun i hi => hr.slots i (hi.mono (by simp))⟩
    have later : SameAt (x.Seen es) (x.run e row).2 x.row := by
      refine ⟨(first.size row).trans hr.size, fun i hi => ?_⟩
      rw [first.keeps row i fun c hc => apart c hc i hi]
      exact hr.slots i (hi.mono (by simp))
    rw [Expr.evalOne_cons]
    change ((if (x.run e row).1 = true then _ else _ : Verdict) (x.run e row).2).1 = _
    rw [hverdict]
    cases he : x.holds e with
    | false =>
      rw [if_neg Bool.false_ne_true, List.countP_cons_of_neg (by simp [he])]
      exact ih hrest held later
    | true =>
      rw [if_pos rfl, List.countP_cons_of_pos he]
      cases held with
      | true => simp [Verdict.give]
      | false => exact ih hrest true later

theorem holds_exactlyOne (h : x.Undisturbed es) :
    x.holds (.collapse false .exactlyOne es) = (es.countP x.holds == 1) := by
  fun_cases Expr.collapse false .exactlyOne es with
  | case1 => rfl
  | case2 e =>
    rw [List.countP_singleton]
    cases x.holds e <;> rfl
  | case3 => exact verdict_evalOne h false ⟨rfl, fun _ _ => rfl⟩

theorem holds_negate (e : Expr) : x.holds e.negate = !x.holds e := by
  fun_cases Expr.negate e with
  | case1 b => rfl
  | case2 e => exact (Bool.not_not _).symm
  | case3 r => rfl
  | case4 r => exact (Bool.not_not _).symm
  | case5 e => rfl

/-- With a condition that always holds the others have to fail, which is a conjunction. -/
theorem holds_one (h : x.Undisturbed es) :
    x.holds (.one es) = (es.countP x.holds == 1) := by
  have others : x.Undisturbed (es.filter fun e => !e.isConst) :=
    List.Pairwise.sublist (List.filter_sublist.cons_cons _) h
  rw [Expr.countP_constants (p := x.holds) fun _ => rfl]
  unfold Expr.one
  split
  · next hc => rw [hc, Nat.add_zero, holds_exactlyOne others]
  · next hc =>
    have turned : x.Undisturbed ((es.filter fun e => !e.isConst).map Expr.negate) := by
      obtain ⟨href, hes⟩ := List.pairwise_cons.mp others
      refine List.pairwise_cons.mpr ⟨?_, ?_⟩
      · intro f hf
        obtain ⟨e, he, rfl⟩ := List.mem_map.mp hf
        intro i
        rw [Expr.reads_negate, Expr.writes_negate]
        exact href e he i
      · exact List.pairwise_map.mpr (hes.imp Expr.Apart.negate)
    rw [hc, Expr.conj_eq_joined, holds_joined true turned, Bool.eq_iff_iff, beq_iff_eq,
      Nat.add_eq_right, List.countP_eq_zero]
    simp only [quantified, if_true, List.all_map, List.all_eq_true, Function.comp_apply,
      holds_negate, Bool.not_eq_true', Bool.not_eq_true]
  · next h₀ h₁ =>
    have h₀ : es.countP Expr.isTrue ≠ 0 := h₀
    have h₁ : es.countP Expr.isTrue ≠ 1 := h₁
    change false = _
    rw [eq_comm, beq_eq_false_iff_ne]
    omega

/-! ## Loops -/

theorem holds_looped (b : Bool) {loop : Expr → Expr} {rounds : Expr} (body : Expr)
    (through : x.holds (loop (.const b)) = b)
    (counted : x.holds (loop (.const !b)) = x.holds rounds) :
    x.holds (.looped b loop rounds body) = x.holds (loop body) := by
  unfold Expr.looped
  split
  · next c hc =>
    rw [Expr.eq_const_of_const? hc]
    split
    · next hb =>
      rw [hb, through]
      rfl
    · next hb =>
      have other : c = !b := by cases b <;> cases c <;> simp_all
      rw [other, counted]
  · rfl

variable {r : ValueRef}

section Items

variable {items : List Json} (h : (r.resolve x.input x.row).items? = some items) (item : Slot)
include h

theorem holds_everyItem (body : Expr) :
    x.holds (.everyItem r item body) = x.holds (.allItems r item body) := by
  have settled (b : Bool) : x.holds (.allItems r item (.const b)) = (b || items.isEmpty) := by
    simp only [holds, run, Expr.eval_allItems, h, Verdict.about, Option.elim_some]
    exact (Loop.every_give item b _ x.row).trans (by rw [List.isEmpty_map])
  have empty : x.holds (.size r .items .eq 0) = items.isEmpty := by
    simp only [holds, run, Expr.eval, Instance.measure?, h, Option.map_some, Option.any_some]
    cases items <;> rfl
  rw [Expr.everyItem_eq_looped]
  exact holds_looped true body (settled true) ((settled false).trans empty.symm)

theorem holds_someItem (body : Expr) :
    x.holds (.someItem r item body) = x.holds (.anyItem r item body) := by
  have settled (b : Bool) : x.holds (.anyItem r item (.const b)) = (b && !items.isEmpty) := by
    simp only [holds, run, Expr.eval_anyItem, h, Verdict.about, Option.elim_some]
    exact (Loop.any_give item b _ x.row).trans (by rw [List.isEmpty_map])
  have filled : x.holds (.size r .items .gt 0) = !items.isEmpty := by
    simp only [holds, run, Expr.eval, Instance.measure?, h, Option.map_some, Option.any_some]
    cases items with
    | nil => rfl
    | cons item rest => simp [CmpOp.holds, Nat.compare_eq_gt]
  rw [Expr.someItem_eq_looped]
  exact holds_looped false body (settled false) ((settled true).trans filled.symm)

end Items

theorem holds_everyKey {entries : Entries}
    (h : (r.resolve x.input x.row).entries? = some entries) (key : Slot) (body : Expr) :
    x.holds (.everyKey r key body) = x.holds (.allKeys r key body) := by
  have settled (b : Bool) :
      x.holds (.allKeys r key (.const b)) = (b || entries.keys.isEmpty) := by
    simp only [holds, run, Expr.eval_allKeys, h, Verdict.about, Option.elim_some]
    exact (Loop.every_give key b _ x.row).trans (by rw [List.isEmpty_map])
  have empty : x.holds (.size r .keys .eq 0) = entries.keys.isEmpty := by
    have hk : entries.size = entries.keys.length := by
      cases entries <;> simp [Entries.size, Entries.keys]
    simp only [holds, run, Expr.eval, Instance.measure?, h, Option.map_some, Option.any_some, hk]
    cases entries.keys <;> rfl
  rw [Expr.everyKey_eq_looped]
  exact holds_looped true body (settled true) ((settled false).trans empty.symm)

end Setting

/-- The folded operators say what the operators say of the verdicts on their operands, whatever the
operands look like, if none reads a loop variable bound inside another one. A folded loop says what
the loop says, if the value is one that it can go through. -/
theorem folding_keeps_verdicts (x : Setting) :
    (∀ es : List Expr, es.Pairwise (Expr.Apart x.pool) →
      x.holds (.conj es) = es.all x.holds ∧ x.holds (.disj es) = es.any x.holds ∧
        x.holds (.one es) = (es.countP x.holds == 1)) ∧
    (∀ e : Expr, x.holds e.negate = !x.holds e) ∧
    (∀ (r : ValueRef) (item : Slot) (body : Expr),
      (r.resolve x.input x.row).items?.isSome = true →
        x.holds (.everyItem r item body) = x.holds (.allItems r item body) ∧
        x.holds (.someItem r item body) = x.holds (.anyItem r item body)) ∧
    ∀ (r : ValueRef) (key : Slot) (body : Expr),
      (r.resolve x.input x.row).entries?.isSome = true →
        x.holds (.everyKey r key body) = x.holds (.allKeys r key body) := by
  refine ⟨fun es h => ?_, Setting.holds_negate, fun r item body h => ?_, fun r key body h => ?_⟩
  · -- Verdicts do not depend on the reference of the setting; the input reads no slot.
    have undisturbed : Setting.Undisturbed { x with ref := .input } es :=
      List.pairwise_cons.mpr ⟨fun e _ => Expr.apart_input e, h⟩
    have all := Setting.holds_joined true undisturbed
    have any := Setting.holds_joined false undisturbed
    have one := Setting.holds_one undisturbed
    rw [Expr.conj_eq_joined, Expr.disj_eq_joined]
    exact ⟨all, any, one⟩
  · obtain ⟨items, hitems⟩ := Option.isSome_iff_exists.mp h
    exact ⟨Setting.holds_everyItem hitems item body, Setting.holds_someItem hitems item body⟩
  · obtain ⟨entries, hentries⟩ := Option.isSome_iff_exists.mp h
    exact Setting.holds_everyKey hentries key body

/-- A condition that always holds beside two that fail: a loop, and a double negation of a
conjunction with a disjunction of nothing in it. -/
theorem unfolded_operands_judged :
    let item (i : Nat) : Slot := ⟨.item, i⟩
    let x : Setting := ⟨.value (.array [.number (.natural 2), .string "a"]),
      #[.missing, .missing], [], 0, .input⟩
    let texts := Expr.allItems .input (item 0) (.hasType (.slot (item 0)) .string)
    let text := Expr.anyItem .input (item 1) (.hasType (.slot (item 1)) .string)
    let es := [texts, .const true, .not (.not (.all [text, .any []]))]
    es.Pairwise (Expr.Apart x.pool) ∧ x.holds (.one es) = true ∧ x.holds (.conj es) = false ∧
      x.holds (.disj es) = true ∧ x.holds (.negate text) = false ∧
      x.holds (.someItem .input (item 1) (.const true)) = true ∧
      x.holds (.everyKey .input (item 1) (.const false)) = false := by
  intro item x texts text es
  have apart : es.Pairwise (Expr.Apart x.pool) := by
    simp [es, Expr.Apart, texts, text, x, item, Expr.reads_iff, Expr.writes_iff, Expr.ref?,
      Expr.binder?, Expr.operands, ValueRef.slots]
    omega
  obtain ⟨operators, negation, items, keys⟩ := folding_keeps_verdicts x
  obtain ⟨all, any, one⟩ := operators es apart
  exact ⟨apart, one.trans rfl, all.trans rfl, any.trans rfl, (negation text).trans rfl,
    (items .input (item 1) (.const true) rfl).2.trans rfl,
    (keys .input (item 1) (.const false) rfl).trans rfl⟩

end SchemaLogic
