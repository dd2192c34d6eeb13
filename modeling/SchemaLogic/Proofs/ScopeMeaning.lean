import SchemaLogic.Proofs.Literal

/-! # Scopes and their readings

A scope realises a reading if the conditions in each bucket realise the meanings there. What is
done to a scope does the same to its reading, and never uses a condition twice. -/
namespace SchemaLogic

def Slot.once (s : Slot) (i : Nat) : Nat := if i = s.index then 1 else 0

def Expr.binds (e : Expr) (i : Nat) : Nat := e.bound.count i

def tally (es : List Expr) (i : Nat) : Nat := (es.flatMap Expr.bound).count i

@[simp] theorem tally_nil (i : Nat) : tally [] i = 0 := rfl

@[simp] theorem tally_cons (e : Expr) (es : List Expr) (i : Nat) :
    tally (e :: es) i = e.binds i + tally es i := by simp [tally, Expr.binds]

@[simp] theorem tally_append (es fs : List Expr) (i : Nat) :
    tally (es ++ fs) i = tally es i + tally fs i := by simp [tally]

theorem tally_eq_zero {es : List Expr} {i : Nat} (h : ∀ e ∈ es, e.binds i = 0) :
    tally es i = 0 := by
  induction es with
  | nil => rfl
  | cons e es ih => rw [tally_cons, h e (by simp), ih fun x hx => h x (.tail _ hx)]

namespace Expr

theorem binds_conj (es : List Expr) (i : Nat) : (conj es).binds i ≤ tally es i := by
  simpa [binds, tally, conj_eq_joined] using (bound_joined true es).count_le i

theorem binds_disj (es : List Expr) (i : Nat) : (disj es).binds i ≤ tally es i := by
  simpa [binds, tally, disj_eq_joined] using (bound_joined false es).count_le i

theorem binds_one (es : List Expr) (i : Nat) : (one es).binds i ≤ tally es i :=
  (bound_one es).count_le i

@[simp] theorem binds_negate (e : Expr) (i : Nat) : e.negate.binds i = e.binds i := by
  rw [binds, bound_negate, binds]

theorem binds_leaf {e : Expr} (h : e.bound = []) (i : Nat) : e.binds i = 0 := by
  rw [binds, h, List.count_nil]

theorem binds_everyItem (r : ValueRef) (slot : Slot) (body : Expr) (i : Nat) :
    (everyItem r slot body).binds i ≤ slot.once i + body.binds i := by
  rw [everyItem_eq_looped]
  refine Nat.le_trans ((bound_looped true rfl).count_le i) (Nat.le_of_eq ?_)
  simp [bound, List.count_cons, binds, Slot.once, Nat.add_comm, eq_comm (a := i)]

theorem binds_someItem (r : ValueRef) (slot : Slot) (body : Expr) (i : Nat) :
    (someItem r slot body).binds i ≤ slot.once i + body.binds i := by
  rw [someItem_eq_looped]
  refine Nat.le_trans ((bound_looped false rfl).count_le i) (Nat.le_of_eq ?_)
  simp [bound, List.count_cons, binds, Slot.once, Nat.add_comm, eq_comm (a := i)]

theorem binds_everyKey (r : ValueRef) (slot : Slot) (body : Expr) (i : Nat) :
    (everyKey r slot body).binds i ≤ slot.once i + body.binds i := by
  rw [everyKey_eq_looped]
  refine Nat.le_trans ((bound_looped true rfl).count_le i) (Nat.le_of_eq ?_)
  simp [bound, List.count_cons, binds, Slot.once, Nat.add_comm, eq_comm (a := i)]

@[simp] theorem binds_hasType (r : ValueRef) (check : TypeCheck) (i : Nat) :
    (hasType r check).binds i = 0 := rfl

end Expr

namespace Scope

def conditions (s : Scope) : Bucket → List Expr
  | .strings => s.strings
  | .numbers => s.numbers
  | .arrays => s.arrays
  | .objects => s.objects
  | .always => s.always

def tally (s : Scope) (i : Nat) : Nat :=
  SchemaLogic.tally (s.strings ++ s.numbers ++ s.arrays ++ s.objects ++ s.always) i

theorem conditions_push (s : Scope) (bucket b : Bucket) (e : Expr) :
    (s.push bucket e).conditions b =
      if e.isTrue then s.conditions b
      else if b = bucket then s.conditions b ++ [e] else s.conditions b := by
  unfold push
  split
  · rfl
  · cases bucket <;> cases b <;> rfl

theorem types_push (s : Scope) (bucket : Bucket) (e : Expr) :
    (s.push bucket e).types = s.types := by
  unfold push
  split
  · rfl
  · cases bucket <;> rfl

theorem tally_push (s : Scope) (bucket : Bucket) (e : Expr) (i : Nat) :
    (s.push bucket e).tally i ≤ s.tally i + e.binds i := by
  unfold push
  split
  · exact Nat.le_add_right _ _
  · cases bucket <;> simp only [tally, tally_append, tally_cons, tally_nil] <;> omega

theorem tally_pushAll (s : Scope) (bucket : Bucket) (es : List Expr) (i : Nat) :
    (s.pushAll bucket es).tally i ≤ s.tally i + SchemaLogic.tally es i := by
  induction es generalizing s with
  | nil => exact Nat.le_refl _
  | cons e es ih =>
    have hp := s.tally_push bucket e i
    have hi := ih (s.push bucket e)
    rw [tally_cons]
    exact Nat.le_trans hi (by omega)

theorem tally_guard? (r : ValueRef) (check : TypeCheck) (es : List Expr) (i : Nat) :
    SchemaLogic.tally (guard? r check es).toList i ≤ SchemaLogic.tally es i := by
  have hd := Expr.binds_disj [.negate (.hasType r check), .conj es] i
  have hc := Expr.binds_conj es i
  unfold guard?
  split
  · exact Nat.zero_le _
  · simp only [Option.toList_some, tally_cons, tally_nil, Expr.binds_negate,
      Expr.binds_hasType] at hd ⊢
    omega

theorem tally_guards (o : Options) (r : ValueRef) (s : Scope) (i : Nat) :
    SchemaLogic.tally (guards o r s) i ≤
      SchemaLogic.tally (s.strings ++ s.numbers ++ s.arrays ++ s.objects) i := by
  have hs := tally_guard? r .string s.strings i
  have hn := tally_guard? r (numberCheck o) s.numbers i
  have ha := tally_guard? r .array s.arrays i
  have ho := tally_guard? r (objectCheck o) s.objects i
  simp only [guards, List.filterMap_eq_flatMap_toList, List.flatMap_cons, List.flatMap_nil, id,
    tally_append, tally_nil]
  omega

theorem binds_clause (r : ValueRef) (check : TypeCheck) (es : List Expr) (i : Nat) :
    (clause r check es).binds i ≤ SchemaLogic.tally es i := by
  have hc := Expr.binds_conj (.hasType r check :: es) i
  rwa [tally_cons, Expr.binds_hasType, Nat.zero_add] at hc

/-- The conditions on numbers go into one clause, be it for numbers or for integers. -/
theorem tally_clauses (o : Options) (r : ValueRef) (s : Scope) (declared : TypeSet) (i : Nat) :
    SchemaLogic.tally (clauses o r s declared) i ≤
      SchemaLogic.tally (s.strings ++ s.numbers ++ s.arrays ++ s.objects) i := by
  have given (t : JsonType) (e : Expr) :
      SchemaLogic.tally (if declared.contains t then [e] else []) i ≤ e.binds i := by
    split
    · simp
    · exact Nat.zero_le _
  have hn : SchemaLogic.tally (if declared.contains .number then
      [clause r (numberCheck o) s.numbers] else if declared.contains .integer then
      [clause r .integer s.numbers] else []) i ≤ SchemaLogic.tally s.numbers i := by
    split
    · simpa using binds_clause r _ _ i
    · exact Nat.le_trans (given _ _) (binds_clause r _ _ i)
  have hs := Nat.le_trans (given .string _) (binds_clause r .string s.strings i)
  have ha := Nat.le_trans (given .array _) (binds_clause r .array s.arrays i)
  have ho := Nat.le_trans (given .object _) (binds_clause r (objectCheck o) s.objects i)
  have hb := given .boolean (.hasType r .boolean)
  have hz := given .null (.hasType r .null)
  rw [Expr.binds_hasType] at hb hz
  simp only [clauses, tally_append]
  omega

theorem binds_finalize (o : Options) (r : ValueRef) (s : Scope) (i : Nat) :
    (s.finalize o r).binds i ≤ s.tally i := by
  rw [tally, tally_append]
  unfold finalize
  split
  · dsimp only
    split
    · exact Nat.zero_le _
    · have hc := Expr.binds_conj (guards o r s ++ s.always) i
      have hg := tally_guards o r s i
      rw [tally_append] at hc
      omega
  · next declared _ =>
    have hc := Expr.binds_conj (.disj (clauses o r s declared) :: s.always) i
    have hd := Expr.binds_disj (clauses o r s declared) i
    have hk := tally_clauses o r s declared i
    rw [tally_cons] at hc
    omega

/-- The conditions of a scope realise the meanings of a reading, bucket by bucket. -/
structure Realises (base : Nat) (w : Stock) (r : ValueRef) (reading : Reading) (s : Scope) :
    Prop where
  types : s.types = reading.types
  conditions : ∀ b, List.Forall₂ (SchemaLogic.Realises base w r.slots r.subject)
    (reading.conditions b) (s.conditions b)

namespace Realises

variable {base : Nat} {w u : Stock} {r : ValueRef} {reading : Reading} {s : Scope}

theorem empty : Scope.Realises base w r {} {} :=
  ⟨rfl, fun b => by cases b <;> exact .nil⟩

theorem grow (h : s.Realises base w r reading) (hg : w.Grows u) : s.Realises base u r reading :=
  ⟨h.types, fun b => SchemaLogic.Realises.grow_all (h.conditions b) hg⟩

theorem fork (h : s.Realises base w r reading) : s.fork.Realises base w r reading.fork :=
  ⟨h.types, fun b => by cases b <;> exact .nil⟩

theorem push (h : s.Realises base w r reading) (bucket : Bucket) {m : Meaning (Option Json)}
    {e : Expr} (hm : SchemaLogic.Realises base w r.slots r.subject m e) :
    (s.push bucket e).Realises base w r (reading.push bucket m) := by
  unfold Reading.push
  split
  · next ht =>
    have ht := hm.isTrue_iff.mpr ht
    simpa only [Scope.push, if_pos ht] using h
  · next ht =>
    have ht : ¬e.isTrue = true := fun hk => ht (hm.isTrue_iff.mp hk)
    refine ⟨(types_push s bucket e).trans h.types, fun b => ?_⟩
    rw [conditions_push, if_neg ht]
    dsimp only
    split
    · exact List.rel_append (h.conditions b) (.cons hm .nil)
    · exact h.conditions b

theorem declare (h : s.Realises base w r reading) (types : TypeSet) :
    (s.declare types).Realises base w r (reading.declare types) := by
  refine ⟨?_, fun b => ?_⟩
  · cases hr : reading.types <;> simp [Scope.declare, Reading.declare, h.types, hr]
  · have := h.conditions b
    cases b <;> exact this

theorem pushAll (h : s.Realises base w r reading) (bucket : Bucket)
    {ms : List (Meaning (Option Json))} {es : List Expr}
    (hm : List.Forall₂ (SchemaLogic.Realises base w r.slots r.subject) ms es) :
    (s.pushAll bucket es).Realises base w r (reading.pushAll bucket ms) := by
  induction hm generalizing s reading with
  | nil => exact h
  | cons hme _ ih => exact ih (h.push bucket hme)

theorem guard? {check : TypeCheck} {ms : List (Meaning (Option Json))} {es : List Expr}
    (h : List.Forall₂ (SchemaLogic.Realises base w r.slots r.subject) ms es) :
    List.Forall₂ (SchemaLogic.Realises base w r.slots r.subject)
      (Reading.guard? check ms).toList (Scope.guard? r check es).toList := by
  have hg := SchemaLogic.Realises.disj (.cons
    (SchemaLogic.Realises.hasType check fun _ hs => hs).negate (.cons (.conj h) .nil))
  cases h with
  | nil => exact .nil
  | cons => exact .cons hg .nil

theorem isEmpty_eq {α β : Type} {R : α → β → Prop} {as : List α} {bs : List β}
    (h : List.Forall₂ R as bs) : as.isEmpty = bs.isEmpty := by
  cases h <;> rfl

theorem guards (o : Options) (h : s.Realises base w r reading) :
    List.Forall₂ (SchemaLogic.Realises base w r.slots r.subject)
      (reading.guards o) (Scope.guards o r s) := by
  simp only [Reading.guards, Scope.guards, List.filterMap_eq_flatMap_toList, List.flatMap_cons,
    List.flatMap_nil, id]
  exact List.rel_append (guard? (h.conditions .strings)) (List.rel_append
    (guard? (h.conditions .numbers)) (List.rel_append (guard? (h.conditions .arrays))
      (List.rel_append (guard? (h.conditions .objects)) .nil)))

theorem given (declared : TypeSet) (t : JsonType) {m : Meaning (Option Json)} {e : Expr}
    (h : SchemaLogic.Realises base w r.slots r.subject m e) :
    List.Forall₂ (SchemaLogic.Realises base w r.slots r.subject)
      (if declared.contains t then [m] else []) (if declared.contains t then [e] else []) := by
  split
  · exact .cons h .nil
  · exact .nil

theorem clause (check : TypeCheck) {ms : List (Meaning (Option Json))} {es : List Expr}
    (h : List.Forall₂ (SchemaLogic.Realises base w r.slots r.subject) ms es) :
    SchemaLogic.Realises base w r.slots r.subject (Reading.clause check ms)
      (Scope.clause r check es) :=
  .conj (.cons (.hasType check fun _ hs => hs) h)

theorem clauses (o : Options) (h : s.Realises base w r reading) (declared : TypeSet) :
    List.Forall₂ (SchemaLogic.Realises base w r.slots r.subject)
      (reading.clauses o declared) (Scope.clauses o r s declared) := by
  have hn : List.Forall₂ (SchemaLogic.Realises base w r.slots r.subject)
      (if declared.contains .number then
        [Reading.clause (numberCheck o) (reading.conditions .numbers)]
        else if declared.contains .integer then
          [Reading.clause .integer (reading.conditions .numbers)] else [])
      (if declared.contains .number then [Scope.clause r (numberCheck o) s.numbers]
        else if declared.contains .integer then [Scope.clause r .integer s.numbers] else []) := by
    split
    · exact .cons (clause _ (h.conditions .numbers)) .nil
    · exact given declared .integer (clause _ (h.conditions .numbers))
  exact List.rel_append (List.rel_append (List.rel_append (List.rel_append (List.rel_append
    (given declared .string (clause _ (h.conditions .strings))) hn)
    (given declared .array (clause _ (h.conditions .arrays))))
    (given declared .object (clause _ (h.conditions .objects))))
    (given declared .boolean (.hasType _ fun _ hs => hs)))
    (given declared .null (.hasType _ fun _ hs => hs))

theorem finalize (o : Options) (h : s.Realises base w r reading) :
    SchemaLogic.Realises base w r.slots r.subject (reading.finalize o) (s.finalize o r) := by
  have hg := guards o h
  have ha : List.Forall₂ _ (reading.conditions .always) s.always := h.conditions .always
  rw [Reading.finalize, Scope.finalize, h.types]
  cases reading.types with
  | none =>
    simp only [isEmpty_eq hg, isEmpty_eq ha]
    split
    · exact .present fun _ hs => hs
    · exact .conj (List.rel_append hg ha)
  | some declared => exact .conj (.cons (.disj (clauses o h declared)) ha)

end Realises

end Scope

end SchemaLogic
