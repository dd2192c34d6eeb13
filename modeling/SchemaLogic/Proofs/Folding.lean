import Mathlib.Data.List.Flatten
import SchemaLogic.Proofs.Occurrence

/-! # What folding does to the shape of a condition

Conjunction and disjunction fold alike: both are `joined`, with the constant that they drop as a
parameter. -/
namespace SchemaLogic.Expr

def const? : Expr → Option Bool
  | .const b => some b
  | _ => none

theorem eq_const_of_const? {e : Expr} {b : Bool} (h : e.const? = some b) : e = .const b := by
  cases e <;> simp_all [const?]

theorem const?_eq_none {e : Expr} (h : ∀ b, e ≠ .const b) : e.const? = none := by
  cases hc : e.const? with
  | none => rfl
  | some b => exact (h b (eq_const_of_const? hc)).elim

theorem isConst_eq (e : Expr) : e.isConst = e.const?.isSome := by cases e <;> rfl

theorem isTrue_eq (e : Expr) : e.isTrue = (e.const? == some true) := by
  cases e with
  | const b => cases b <;> rfl
  | _ => rfl

theorem countP_constants {p : Expr → Bool} (hp : ∀ b, p (.const b) = b) (es : List Expr) :
    es.countP p = (es.filter fun e => !e.isConst).countP p + es.countP isTrue := by
  induction es with
  | nil => rfl
  | cons e es ih =>
    by_cases hc : e.isConst
    · obtain ⟨b, rfl⟩ : ∃ b, e = .const b := by cases e <;> simp_all [isConst]
      rw [List.filter_cons_of_neg (by simpa using hc), List.countP_cons, List.countP_cons, ih, hp]
      cases b <;> simp [isTrue, Nat.add_assoc]
    · have ht : e.isTrue = false := by cases e <;> simp_all [isConst, isTrue]
      rw [List.filter_cons_of_pos (by simpa using hc), List.countP_cons, List.countP_cons,
        List.countP_cons, ih, ht]
      simp only [Bool.false_eq_true, if_false]
      omega

/-- The connective that drops a constant: conjunction drops true, disjunction drops false. -/
def connective : Bool → List Expr → Expr
  | true => .all
  | false => .any

def isConnective (b : Bool) : Expr → Bool
  | .all _ => b
  | .any _ => !b
  | _ => false

def parts (b : Bool) : Expr → List Expr
  | .const _ => []
  | .all es => if b then es else [.all es]
  | .any es => if b then [.any es] else es
  | e => [e]

/-- A constant contributes nothing to a connective, the connective itself its operands, any other
condition only itself. -/
theorem parts_cases (b : Bool) (e : Expr) :
    (∃ c, e = .const c) ∧ e.parts b = [] ∨ e = connective b (e.parts b) ∨
      e.isConnective b = false ∧ e.parts b = [e] := by
  cases e with
  | const c => exact Or.inl ⟨⟨c, rfl⟩, rfl⟩
  | all es =>
    cases b
    · exact Or.inr (Or.inr ⟨rfl, rfl⟩)
    · exact Or.inr (Or.inl rfl)
  | any es =>
    cases b
    · exact Or.inr (Or.inl rfl)
    · exact Or.inr (Or.inr ⟨rfl, rfl⟩)
  | _ => exact Or.inr (Or.inr ⟨rfl, rfl⟩)

theorem parts_eq_self {b : Bool} {e : Expr} (hc : ∀ c, e ≠ .const c)
    (hb : ∀ es, e ≠ connective b es) : e.parts b = [e] := by
  rcases parts_cases b e with ⟨⟨c, he⟩, -⟩ | he | ⟨-, hp⟩
  · exact (hc c he).elim
  · exact (hb _ he).elim
  · exact hp

theorem parts_of_isConst {b : Bool} {e : Expr} (h : e.isConst) : e.parts b = [] := by
  cases e with
  | const c => rfl
  | _ => cases h

@[simp] theorem operands_connective (b : Bool) (es : List Expr) :
    (connective b es).operands = es := by
  cases b <;> rfl

def joined (b : Bool) (es : List Expr) : Expr :=
  if es.any (·.const? == some !b) then .const !b
  else collapse b (connective b) (es.flatMap (parts b))

theorem conjuncts_eq (es : List Expr) :
    conjuncts? es = if es.any (·.const? == some false) then none
      else some (es.flatMap (parts true)) := by
  fun_induction conjuncts? es with
  | case1 => rfl
  | case2 es ih => rw [ih]; simp [const?, parts]
  | case3 es => simp [const?]
  | case4 es inner ih => rw [ih]; split <;> simp_all [const?, parts]
  | case5 e es h₁ h₂ h₃ ih =>
    have hc : ∀ c, e ≠ .const c := by
      intro c
      cases c
      · exact h₂
      · exact h₁
    have hp : e.parts true = [e] := parts_eq_self hc h₃
    rw [ih]
    split <;> simp_all [const?_eq_none hc]

theorem disjuncts_eq (es : List Expr) :
    disjuncts? es = if es.any (·.const? == some true) then none
      else some (es.flatMap (parts false)) := by
  fun_induction disjuncts? es with
  | case1 => rfl
  | case2 es ih => rw [ih]; simp [const?, parts]
  | case3 es => simp [const?]
  | case4 es inner ih => rw [ih]; split <;> simp_all [const?, parts]
  | case5 e es h₁ h₂ h₃ ih =>
    have hc : ∀ c, e ≠ .const c := by
      intro c
      cases c
      · exact h₁
      · exact h₂
    have hp : e.parts false = [e] := parts_eq_self hc h₃
    rw [ih]
    split <;> simp_all [const?_eq_none hc]

theorem conj_eq_joined (es : List Expr) : conj es = joined true es := by
  rw [conj, conjuncts_eq, joined]
  simp only [Bool.not_true]
  split <;> simp_all [connective]

theorem disj_eq_joined (es : List Expr) : disj es = joined false es := by
  rw [disj, disjuncts_eq, joined]
  simp only [Bool.not_false]
  split <;> simp_all [connective]

/-- A loop over a constant condition: one constant passes through it, under the other one only
the number of rounds counts. -/
def looped (b : Bool) (loop : Expr → Expr) (rounds body : Expr) : Expr :=
  match body.const? with
  | some c => if c = b then .const b else rounds
  | none => loop body

theorem everyItem_eq_looped (r : ValueRef) (item : Slot) (body : Expr) :
    everyItem r item body = looped true (.allItems r item) (.size r .items .eq 0) body := by
  cases body with
  | const b => cases b <;> rfl
  | _ => rfl

theorem someItem_eq_looped (r : ValueRef) (item : Slot) (body : Expr) :
    someItem r item body = looped false (.anyItem r item) (.size r .items .gt 0) body := by
  cases body with
  | const b => cases b <;> rfl
  | _ => rfl

theorem everyKey_eq_looped (r : ValueRef) (key : Slot) (body : Expr) :
    everyKey r key body = looped true (.allKeys r key) (.size r .keys .eq 0) body := by
  cases body with
  | const b => cases b <;> rfl
  | _ => rfl

/-! ## Properties of every condition inside -/

section Everywhere

variable {P : List Slot → Expr → Prop} {visible : List Slot} {es : List Expr} {e : Expr}

theorem everywhere_parts (b : Bool) (h : Everywhere P visible e) :
    ∀ x ∈ e.parts b, Everywhere P visible x := by
  intro x hx
  rcases parts_cases b e with ⟨-, hp⟩ | he | ⟨-, hp⟩
  · simp [hp] at hx
  · rw [he] at h
    have hs : (connective b (e.parts b)).scope visible = visible := by cases b <;> rfl
    exact hs ▸ h.inside x (by simpa using hx)
  · obtain rfl : x = e := by simpa [hp] using hx
    exact h

theorem everywhere_collapse (ht : Transparent P) (b : Bool) {wrap : List Expr → Expr}
    (hw : ∀ es, P visible (wrap es) ∧ (wrap es).operands = es ∧ (wrap es).scope visible = visible)
    (h : ∀ e ∈ es, Everywhere P visible e) : Everywhere P visible (collapse b wrap es) := by
  fun_cases collapse b wrap es with
  | case1 => exact .leaf (ht.const visible b) rfl
  | case2 e => exact h e (by simp)
  | case3 =>
    obtain ⟨hp, ho, hs⟩ := hw es
    exact .intro hp fun x hx => by rw [hs]; exact h x (ho ▸ hx)

theorem everywhere_joined (ht : Transparent P) (b : Bool)
    (h : ∀ e ∈ es, Everywhere P visible e) : Everywhere P visible (joined b es) := by
  unfold joined
  split
  · exact .leaf (ht.const visible _) rfl
  · apply everywhere_collapse ht b
    · intro es
      cases b
      · exact ⟨ht.any visible es, rfl, rfl⟩
      · exact ⟨ht.all visible es, rfl, rfl⟩
    · intro x hx
      obtain ⟨e, he, hx⟩ := List.mem_flatMap.mp hx
      exact everywhere_parts b (h e he) x hx

theorem everywhere_conj (ht : Transparent P) (h : ∀ e ∈ es, Everywhere P visible e) :
    Everywhere P visible (conj es) :=
  conj_eq_joined es ▸ everywhere_joined ht true h

theorem everywhere_negate (ht : Transparent P) (h : Everywhere P visible e) :
    Everywhere P visible (negate e) := by
  fun_cases negate e with
  | case1 b => exact .leaf (ht.const visible _) rfl
  | case2 e => exact h.inside e (by simp [operands])
  | case3 r => exact .leaf ((ht.presence visible r).mp h.here) rfl
  | case4 r => exact .leaf ((ht.presence visible r).mpr h.here) rfl
  | case5 e => exact .intro (ht.not visible _) (by simpa [operands, scope, binder?] using h)

theorem everywhere_one (ht : Transparent P) (h : ∀ e ∈ es, Everywhere P visible e) :
    Everywhere P visible (one es) := by
  have ho : ∀ e ∈ es.filter (fun e => !e.isConst), Everywhere P visible e := fun e he =>
    h e (List.mem_filter.mp he).1
  unfold one
  split
  · exact everywhere_collapse ht false (fun es => ⟨ht.exactlyOne visible es, rfl, rfl⟩) ho
  · apply everywhere_conj ht
    intro x hx
    obtain ⟨e, he, rfl⟩ := List.mem_map.mp hx
    exact everywhere_negate ht (ho e he)
  · exact .leaf (ht.const visible _) rfl

theorem everywhere_looped (ht : Transparent P) (b : Bool) {loop : Expr → Expr} {rounds : Expr}
    (hr : Everywhere P visible rounds) (hl : Everywhere P visible (loop e)) :
    Everywhere P visible (looped b loop rounds e) := by
  unfold looped
  split
  · split
    · exact .leaf (ht.const visible b) rfl
    · exact hr
  · exact hl

end Everywhere

/-! ## Loop variables

Folding may drop a condition and never repeats one. -/

section Bound

variable {es : List Expr} {e : Expr}

theorem bound_connective (b : Bool) (es : List Expr) :
    (connective b es).bound = es.flatMap bound := by
  cases b <;> simp [connective, bound]

theorem bound_parts (b : Bool) (e : Expr) : (e.parts b).flatMap bound = e.bound := by
  rcases parts_cases b e with ⟨⟨c, rfl⟩, -⟩ | he | ⟨-, hp⟩
  · rfl
  · rw [← bound_connective b, ← he]
  · simp [hp]

theorem bound_collapse (b : Bool) {wrap : List Expr → Expr}
    (hw : ∀ es, (wrap es).bound = es.flatMap bound) :
    (collapse b wrap es).bound = es.flatMap bound := by
  fun_cases collapse b wrap es with
  | case1 => rfl
  | case2 e => simp
  | case3 => exact hw es

theorem bound_joined (b : Bool) (es : List Expr) :
    (joined b es).bound.Sublist (es.flatMap bound) := by
  unfold joined
  split
  · simp [bound]
  · rw [bound_collapse b (bound_connective b), List.flatMap_assoc]
    simp [bound_parts]

theorem bound_negate (e : Expr) : (negate e).bound = e.bound := by
  fun_cases negate e <;> simp [bound]

theorem bound_one (es : List Expr) : (one es).bound.Sublist (es.flatMap bound) := by
  have ho : ((es.filter fun e => !e.isConst).flatMap bound).Sublist (es.flatMap bound) :=
    List.filter_sublist.flatMap bound
  unfold one
  split
  · rwa [bound_collapse false (by simp [bound])]
  · rw [conj_eq_joined]
    refine (bound_joined true _).trans ?_
    rw [List.flatMap_map]
    simpa only [bound_negate] using ho
  · simp [bound]

theorem bound_looped (b : Bool) {loop : Expr → Expr} {rounds : Expr} (hr : rounds.bound = []) :
    (looped b loop rounds e).bound.Sublist (loop e).bound := by
  unfold looped
  split
  · split <;> simp [bound, hr]
  · exact List.Sublist.refl _

end Bound

/-! ## Normal forms -/

def isNegatable : Expr → Bool
  | .const _ => false
  | .not _ => false
  | .present _ => false
  | .absent _ => false
  | _ => true

/-- Nothing is left to fold at the top of a condition. -/
def Tidy : Expr → Prop
  | .const _ => False
  | .not e => e.isNegatable
  | .all es => 2 ≤ es.length ∧ ∀ e ∈ es, !e.isConnective true
  | .any es => 2 ≤ es.length ∧ ∀ e ∈ es, !e.isConnective false
  | .exactlyOne es => 2 ≤ es.length
  | _ => True

/-- A condition without constants in which nothing is left to fold. -/
inductive Normal : Expr → Prop where
  | intro {e} (tidy : e.Tidy) (inside : ∀ x ∈ e.operands, Normal x) : Normal e

namespace Normal

variable {e : Expr}

theorem tidy (h : e.Normal) : e.Tidy := by
  cases h
  assumption

theorem inside (h : e.Normal) : ∀ x ∈ e.operands, x.Normal := by
  cases h
  assumption

theorem leaf (h : e.Tidy) (he : e.operands = []) : e.Normal := .intro h (by simp [he])

theorem const?_eq_none (h : e.Normal) : e.const? = none := by
  cases e with
  | const b => exact h.tidy.elim
  | _ => rfl

end Normal

def Folded (e : Expr) : Prop := e.isConst ∨ e.Normal

theorem Folded.normal {e : Expr} (h : e.Folded) (hc : e.const? = none) : e.Normal := by
  refine h.resolve_left ?_
  simp [isConst_eq, hc]

theorem folded_const (b : Bool) : (Expr.const b).Folded := Or.inl rfl

section Folded

variable {es : List Expr} {e : Expr} {b : Bool}

theorem tidy_connective :
    (connective b es).Tidy ↔ 2 ≤ es.length ∧ ∀ e ∈ es, !e.isConnective b := by
  cases b <;> exact Iff.rfl

theorem normal_parts (h : e.Normal) : ∀ x ∈ e.parts b, x.Normal ∧ !x.isConnective b := by
  intro x hx
  rcases parts_cases b e with ⟨-, hp⟩ | he | ⟨hb, hp⟩
  · simp [hp] at hx
  · rw [he] at h
    exact ⟨h.inside x (by simpa using hx), (tidy_connective.mp h.tidy).2 x hx⟩
  · obtain rfl : x = e := by simpa [hp] using hx
    exact ⟨h, by rw [hb]; rfl⟩

theorem parts_ne_nil (h : e.Normal) : e.parts b ≠ [] := by
  rcases parts_cases b e with ⟨⟨c, rfl⟩, -⟩ | he | ⟨-, hp⟩
  · exact h.tidy.elim
  · rw [he] at h
    exact List.ne_nil_of_length_pos (Nat.zero_lt_of_lt (tidy_connective.mp h.tidy).1)
  · simp [hp]

theorem normal_flatten (h : ∀ e ∈ es, e.Folded) :
    ∀ x ∈ es.flatMap (parts b), x.Normal ∧ !x.isConnective b := by
  intro x hx
  obtain ⟨e, he, hx⟩ := List.mem_flatMap.mp hx
  rcases h e he with hc | hn
  · simp [parts_of_isConst hc] at hx
  · exact normal_parts hn x hx

theorem normal_connective (h : ∀ x ∈ es, x.Normal ∧ !x.isConnective b) (hl : 2 ≤ es.length) :
    (connective b es).Normal := by
  apply Normal.intro (tidy_connective.mpr ⟨hl, fun x hx => (h x hx).2⟩)
  intro x hx
  exact (h x (operands_connective b es ▸ hx)).1

theorem folded_collapse {wrap : List Expr → Expr} (h : ∀ x ∈ es, x.Normal)
    (hw : 2 ≤ es.length → (wrap es).Normal) :
    (collapse b wrap es).Folded ∧
      (collapse b wrap es).const? = if es = [] then some b else none := by
  fun_cases collapse b wrap es with
  | case1 => exact ⟨folded_const b, rfl⟩
  | case2 e =>
    have hn := h e (by simp)
    exact ⟨Or.inr hn, by simp [hn.const?_eq_none]⟩
  | case3 _ h₁ h₂ =>
    have hl : 2 ≤ es.length := by
      match es, h₁, h₂ with
      | [], h₁, _ => exact (h₁ rfl).elim
      | [e], _, h₂ => exact (h₂ e rfl).elim
      | _ :: _ :: _, _, _ => simp
    exact ⟨Or.inr (hw hl), by rw [if_neg h₁]; exact (hw hl).const?_eq_none⟩

/-- A connective is constant where an operand decides it or where every operand is dropped. -/
theorem folded_joined (h : ∀ e ∈ es, e.Folded) :
    (joined b es).Folded ∧ (joined b es).const? =
      if es.any (·.const? == some !b) then some !b
      else if es.all (·.const?.isSome) then some b else none := by
  unfold joined
  split
  · exact ⟨folded_const _, rfl⟩
  · have hn := normal_flatten (b := b) h
    obtain ⟨hf, hc⟩ := folded_collapse (b := b) (fun x hx => (hn x hx).1) (normal_connective hn)
    have hd : es.flatMap (parts b) = [] ↔ es.all (·.const?.isSome) = true := by
      rw [List.flatMap_eq_nil_iff, List.all_eq_true]
      refine forall₂_congr fun e he => ⟨fun hp => ?_, fun hp => ?_⟩
      · rcases h e he with hk | hk
        · rwa [← isConst_eq]
        · exact (parts_ne_nil hk hp).elim
      · exact parts_of_isConst (isConst_eq e ▸ hp)
    exact ⟨hf, by simp only [hc, hd]⟩

theorem folded_negate (h : e.Folded) :
    (negate e).Folded ∧ (negate e).const? = e.const?.map (!·) := by
  fun_cases negate e with
  | case1 c => exact ⟨folded_const _, rfl⟩
  | case2 e =>
    have hn := (h.normal rfl).inside e (by simp [operands])
    exact ⟨Or.inr hn, hn.const?_eq_none⟩
  | case3 r => exact ⟨Or.inr (.leaf trivial rfl), rfl⟩
  | case4 r => exact ⟨Or.inr (.leaf trivial rfl), rfl⟩
  | case5 e h₁ h₂ h₃ h₄ =>
    have hc : e.const? = none := const?_eq_none h₁
    refine ⟨Or.inr (.intro ?_ (by simpa [operands] using h.normal hc)), by rw [hc]; rfl⟩
    cases e <;> simp_all [Tidy, isNegatable]

theorem folded_one (h : ∀ e ∈ es, e.Folded) :
    (one es).Folded ∧ (one es).const? =
      if 2 ≤ es.countP (·.const? == some true) then some false
      else if es.all (·.const?.isSome) then some (es.countP (·.const? == some true) == 1)
      else none := by
  have hn : ∀ e ∈ es.filter (fun e => !e.isConst), e.Normal := by
    intro e he
    obtain ⟨he, hc⟩ := List.mem_filter.mp he
    exact (h e he).resolve_left (by simpa using hc)
  have hd : es.filter (fun e => !e.isConst) = [] ↔ es.all (·.const?.isSome) = true := by
    simp only [List.filter_eq_nil_iff, isConst_eq, List.all_eq_true, Bool.not_eq_true',
      Bool.not_eq_false]
  have ht : es.countP isTrue = es.countP (·.const? == some true) :=
    List.countP_congr fun e _ => by rw [isTrue_eq]
  unfold one
  rw [ht]
  split
  · next ht =>
    have hw : 2 ≤ (es.filter fun e => !e.isConst).length →
        (Expr.exactlyOne (es.filter fun e => !e.isConst)).Normal := fun hl => .intro hl hn
    obtain ⟨hf, hc⟩ := folded_collapse (b := false) hn hw
    exact ⟨hf, by simp [hc, hd, ht]⟩
  · next ht =>
    have hk : ∀ e ∈ (es.filter fun e => !e.isConst).map negate,
        e.Folded ∧ e.const? = none := by
      intro x hx
      obtain ⟨e, he, rfl⟩ := List.mem_map.mp hx
      obtain ⟨hf, hc⟩ := folded_negate (Or.inr (hn e he))
      exact ⟨hf, by rw [hc, (hn e he).const?_eq_none]; rfl⟩
    obtain ⟨hf, hc⟩ := folded_joined (b := true) fun e he => (hk e he).1
    rw [conj_eq_joined]
    refine ⟨hf, hc.trans ?_⟩
    have hz : ((es.filter fun e => !e.isConst).map negate).any (·.const? == some false) = false :=
      List.any_eq_false.mpr fun e he => by simp [hk e he]
    have ha : ((es.filter fun e => !e.isConst).map negate).all (·.const?.isSome) = true ↔
        es.all (·.const?.isSome) = true := by
      rw [← hd, List.all_eq_true, List.eq_nil_iff_forall_not_mem]
      refine ⟨fun hz e he => ?_, fun hz x hx => ?_⟩
      · have := hz _ (List.mem_map_of_mem he)
        simp [hk _ (List.mem_map_of_mem he)] at this
      · obtain ⟨e, he, -⟩ := List.mem_map.mp hx
        exact (hz e he).elim
    simp only [Bool.not_true, hz, ha, ht, Bool.false_eq_true, if_false,
      Nat.reduceLeDiff, beq_self_eq_true]
  · next h₀ h₁ =>
    have : 2 ≤ es.countP (·.const? == some true) := by
      have h₀ : es.countP (·.const? == some true) ≠ 0 := h₀
      have h₁ : es.countP (·.const? == some true) ≠ 1 := h₁
      omega
    exact ⟨folded_const _, by rw [if_pos this]; rfl⟩

theorem folded_looped {loop : Expr → Expr} {rounds : Expr} (hr : rounds.Normal)
    (hl : e.Normal → (loop e).Normal) (h : e.Folded) :
    (looped b loop rounds e).Folded ∧
      (looped b loop rounds e).const? = if e.const? = some b then some b else none := by
  unfold looped
  split
  · next c hc =>
    split
    · next hb => exact ⟨folded_const b, by rw [hc, hb, if_pos rfl]; rfl⟩
    · next hb => exact ⟨Or.inr hr, by simp [hr.const?_eq_none, hc, hb]⟩
  · next hc =>
    have hn := hl (h.normal hc)
    exact ⟨Or.inr hn, by simp [hn.const?_eq_none, hc]⟩

end Folded

end SchemaLogic.Expr
