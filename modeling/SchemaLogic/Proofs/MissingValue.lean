import SchemaLogic.Proofs.IdleKeywords
import SchemaLogic.Proofs.Pairing

/-! # The missing value

A schema is asked about a missing value where it describes a member that need not be there. The
missing value has no type, so it passes unless something is asked of every value; but a reading that
asks for nothing at all stands for presence. Conditions that are known to hold are not kept, so
folding can show here and nowhere else. -/
namespace SchemaLogic

/-! ## Readings -/

namespace Reading

variable {s : Reading} {o : Options}

def Void (s : Reading) : Prop := s.types = none ∧ ∀ b, s.conditions b = []

/-- Nothing that is asked for keeps the missing value out. -/
def Open (s : Reading) : Prop :=
  s.types = none ∧ ∀ m ∈ s.conditions .always, m.holds none = true

/-- No condition that is kept folds to `true`. -/
def Firm (s : Reading) : Prop := ∀ b, ∀ m ∈ s.conditions b, m.folds = false

theorem types_pushAll (s : Reading) (b : Bucket) (ms : List (Meaning (Option Json))) :
    (s.pushAll b ms).types = s.types := by
  induction ms generalizing s with
  | nil => rfl
  | cons m ms ih =>
    refine (ih (s.push b m)).trans ?_
    rw [push]
    split <;> rfl

theorem conditions_pushAll (s : Reading) (b c : Bucket) (ms : List (Meaning (Option Json))) :
    (s.pushAll b ms).conditions c =
      s.conditions c ++ if c = b then ms.filter (!·.folds) else [] := by
  have push (s : Reading) (m : Meaning (Option Json)) : (s.push b m).conditions c =
      s.conditions c ++ if c = b then [m].filter (!·.folds) else [] := by
    rw [Reading.push]
    by_cases hm : m.folds = true
    · rw [if_pos (Meaning.folds_iff.mp hm)]
      simp [hm]
    · rw [if_neg (mt Meaning.folds_iff.mpr hm)]
      by_cases hc : c = b <;> simp [hc, hm]
  induction ms generalizing s with
  | nil => simp [pushAll]
  | cons m ms ih =>
    refine (ih (s.push b m)).trans ?_
    rw [push, List.append_assoc]
    by_cases hc : c = b <;> simp [hc, List.filter_cons]
    split <;> simp

theorem void_pushAll (s : Reading) (b : Bucket) (ms : List (Meaning (Option Json))) :
    (s.pushAll b ms).Void ↔ s.Void ∧ ms.all Meaning.folds = true := by
  simp only [Void, types_pushAll, conditions_pushAll, List.append_eq_nil_iff, forall_and, and_assoc]
  refine and_congr_right fun _ => and_congr_right fun _ => ?_
  constructor
  · intro h
    have kept := h b
    rw [if_pos rfl, List.filter_eq_nil_iff] at kept
    simpa using kept
  · intro h c
    split
    · exact List.filter_eq_nil_iff.mpr (by simpa using h)
    · rfl

theorem open_pushAll (s : Reading) (b : Bucket) (ms : List (Meaning (Option Json))) :
    (s.pushAll b ms).Open ↔ s.Open ∧ (b = .always → ∀ m ∈ ms, m.holds none = true) := by
  simp only [Open, types_pushAll, conditions_pushAll, List.mem_append, or_imp, forall_and,
    and_assoc]
  refine and_congr_right fun _ => and_congr_right fun _ => ?_
  constructor
  · intro h hb m hm
    by_cases hf : m.folds = true
    · exact Meaning.holds_of_folds hf none
    · refine h m ?_
      rw [if_pos hb.symm]
      exact List.mem_filter.mpr ⟨hm, by simpa using hf⟩
  · intro h m hm
    split at hm
    · next hb => exact h hb.symm m (List.mem_of_mem_filter hm)
    · cases hm

theorem firm_pushAll (hs : s.Firm) (b : Bucket) (ms : List (Meaning (Option Json))) :
    (s.pushAll b ms).Firm := by
  intro c m hm
  rw [conditions_pushAll, List.mem_append] at hm
  rcases hm with hm | hm
  · exact hs c m hm
  · split at hm
    · simpa using (List.mem_filter.mp hm).2
    · cases hm

theorem firm_empty : ({} : Reading).Firm := by
  intro b m hm
  cases hm

theorem guards_eq_nil : s.guards o = [] ↔ ∀ b, b ≠ .always → s.conditions b = [] := by
  have given (check : TypeCheck) (ms : List (Meaning (Option Json))) :
      (guard? check ms).toList = [] ↔ ms = [] := by
    rw [guard?]
    split <;> simp_all
  simp only [guards_eq, List.flatMap_eq_nil_iff, given, List.forall_mem_cons]
  constructor
  · rintro ⟨hs, hn, ha, ho, -⟩ b hb
    cases b with
    | always => exact absurd rfl hb
    | strings => exact hs
    | numbers => exact hn
    | arrays => exact ha
    | objects => exact ho
  · intro h
    exact ⟨h .strings (by simp), h .numbers (by simp), h .arrays (by simp), h .objects (by simp),
      by simp⟩

theorem void_iff (ht : s.types = none) : s.Void ↔ s.guards o ++ s.conditions .always = [] := by
  rw [Void, and_iff_right ht, List.append_eq_nil_iff, guards_eq_nil]
  constructor
  · exact fun h => ⟨fun b _ => h b, h .always⟩
  · rintro ⟨h, ha⟩ b
    by_cases hb : b = .always
    · exact hb ▸ ha
    · exact h b hb

/-- No guard keeps the missing value out, and no clause lets it in. -/
theorem holds_none_finalize (s : Reading) :
    (s.finalize o).holds none = true ↔ s.Open ∧ ¬s.Void := by
  have untyped (check : TypeCheck) : (Instance.ofOption none).hasType check = false := by
    cases check <;> rfl
  cases ht : s.types with
  | none =>
    have guarded : (s.guards o).all (·.holds none) = true := by
      rw [guards_eq, List.all_flatMap, List.all_eq_true]
      intro t _
      rw [all_guard?, untyped]
      rfl
    rw [finalize_bare ht, void_iff (o := o) ht, Open, and_iff_right ht]
    split
    · next he => exact iff_of_false Bool.false_ne_true fun h => h.2 (List.isEmpty_iff.mp he)
    · next hne =>
      rw [and_iff_left (by simpa using hne), Meaning.holds_conj, List.all_append, guarded,
        Bool.true_and, List.all_eq_true]
  | some types =>
    have closed : (s.clauses o types).any (·.holds none) = false := by
      simp only [clauses, List.any_append, Bool.or_eq_false_iff]
      repeat' constructor
      all_goals split <;> simp [clause, untyped]
    refine iff_of_false ?_ fun h => ?_
    · simp [finalize, ht, closed]
    · rw [h.1.1] at ht
      cases ht

theorem Firm.finalize (hs : s.Firm) (o : Options) : (s.finalize o).folds = false := by
  have none_left {ms : List (Meaning (Option Json))} (firm : ∀ m ∈ ms, m.folds = false)
      (hall : ms.all Meaning.folds = true) : ms = [] := by
    rw [List.eq_nil_iff_forall_not_mem]
    intro m hm
    have hfold := List.all_eq_true.mp hall m hm
    rw [firm m hm] at hfold
    cases hfold
  have guarded : ∀ m ∈ s.guards o, m.folds = false := by
    intro m hm
    rw [guards_eq, List.mem_flatMap] at hm
    obtain ⟨t, -, hm⟩ := hm
    rw [guard?] at hm
    split at hm
    · cases hm
    · next hne =>
      cases Option.mem_toList.mp hm
      rw [Meaning.folds_disj, ← Bool.not_eq_true]
      intro hfold
      have rest : (s.conditions t.bucket).all Meaning.folds = true := by
        simpa [Meaning.look, Meaning.negate] using hfold
      exact hne (List.isEmpty_iff.mpr (none_left (hs _) rest))
  rw [← Bool.not_eq_true]
  intro hfold
  cases ht : s.types with
  | none =>
    rw [finalize_bare ht] at hfold
    split at hfold
    · cases hfold
    · next hne =>
      rw [Meaning.folds_conj, List.all_append, Bool.and_eq_true] at hfold
      rw [none_left guarded hfold.1, none_left (hs _) hfold.2] at hne
      exact hne rfl
  | some types =>
    have closed := (holds_none_finalize s).mp (Meaning.holds_of_folds hfold none)
    rw [closed.1.1] at ht
    cases ht

end Reading

/-! ## Runs on readings -/

/-- A property that holds of what two parts ask for if it holds of each part, and that types
exclude. -/
structure Additive (P : Reading → Prop) : Prop where
  empty : P {}
  bare : ∀ {s}, P s → s.types = none
  pushAll : ∀ s b ms, P (s.pushAll b ms) ↔ P s ∧ P (({} : Reading).pushAll b ms)

theorem additive_void : Additive Reading.Void where
  empty := ⟨rfl, fun _ => rfl⟩
  bare h := h.1
  pushAll s b ms := by
    have empty : ({} : Reading).Void := ⟨rfl, fun _ => rfl⟩
    rw [Reading.void_pushAll, Reading.void_pushAll, and_iff_right empty]

theorem additive_open : Additive Reading.Open where
  empty := ⟨rfl, by simp⟩
  bare h := h.1
  pushAll s b ms := by
    have empty : ({} : Reading).Open := ⟨rfl, by simp⟩
    rw [Reading.open_pushAll, Reading.open_pushAll, and_iff_right empty]

/-- What a run makes of a reading has a property if the reading has it and what the run makes of an
empty one. -/
def Splits (P : Reading → Prop) (run : Reading → Except CompileError Reading) : Prop :=
  ∀ s t added, run s = .ok t → run {} = .ok added → (P t ↔ P s ∧ P added)

section Runs

variable {P : Reading → Prop} {o : Options}

theorem Splits.foldlM_iff {α : Type} {step : Reading → α → Except CompileError Reading}
    {l : List α} (hm : ∀ a ∈ l, Merges o (step · a)) (h : ∀ a ∈ l, Splits P (step · a))
    {s t : Reading} (hs : l.foldlM step s = .ok t) :
    P t ↔ P s ∧ ∀ a ∈ l, ∀ u, step {} a = .ok u → P u := by
  induction l generalizing s with
  | nil =>
    cases hs
    simp
  | cons a l ih =>
    rw [List.foldlM_cons, bind_eq_ok] at hs
    obtain ⟨mid, ha, hs⟩ := hs
    obtain ⟨added, hadded⟩ := (hm a (by simp)).ok ha {}
    rw [ih (fun b hb => hm b (.tail _ hb)) (fun b hb => h b (.tail _ hb)) hs,
      h a (by simp) s mid added ha hadded, List.forall_mem_cons, forall_ok_iff hadded, and_assoc]

theorem Splits.foldlM (empty : P {}) {α : Type}
    {step : Reading → α → Except CompileError Reading} {l : List α}
    (hm : ∀ a ∈ l, Merges o (step · a)) (h : ∀ a ∈ l, Splits P (step · a)) :
    Splits P fun s => l.foldlM step s := by
  intro s t added hs hadded
  rw [foldlM_iff hm h hs, foldlM_iff hm h hadded, and_iff_right empty]

/-- Branches start with the declared types, and there are none where the property holds. -/
theorem Splits.branches (hP : Additive P) {n : Node} {enrich : Enrich} (schemas : List Json)
    (combine : List (Meaning (Option Json)) → Meaning (Option Json)) :
    Splits P fun s =>
      n.branchMeanings enrich s schemas >>= fun ms => pure (s.push .always (combine ms)) := by
  intro s t added hs hadded
  obtain ⟨ms, hms, ht⟩ := bind_eq_ok.mp hs
  obtain ⟨base, hbase, ha⟩ := bind_eq_ok.mp hadded
  cases ht
  cases ha
  refine (hP.pushAll s .always [combine ms]).trans (and_congr_right fun hs => ?_)
  have fork : s.fork = {} := by rw [Reading.fork, hP.bare hs]
  have same : ms = base := by
    simp only [Node.branchMeanings, fork] at hms
    exact Except.ok.inj (hms.symm.trans hbase)
  rw [same]
  rfl

theorem foldlM_keeps {α : Type} {step : Reading → α → Except CompileError Reading} {l : List α}
    (h : ∀ a ∈ l, ∀ s t, P s → step s a = .ok t → P t) {s t : Reading} (hs : P s)
    (ht : l.foldlM step s = .ok t) : P t := by
  induction l generalizing s with
  | nil =>
    cases ht
    exact hs
  | cons a l ih =>
    rw [List.foldlM_cons, bind_eq_ok] at ht
    obtain ⟨mid, ha, ht⟩ := ht
    exact ih (fun b hb => h b (.tail _ hb)) (h a (by simp) s mid hs ha) ht

variable [Pattern.Engines]

theorem splits_enrich (hP : Additive P) {enrich : Enrich} {n : Node}
    (hm : ∀ sub, Merges n.options (enrich sub)) (h : ∀ sub, Splits P (enrich sub)) (k : Keyword) :
    Splits P fun s => k.enrich enrich n s := by
  have demanded {d : Demands} (b : Bucket) : Splits P fun s => d >>= fun ms =>
      pure (s.pushAll b ms) := by
    intro s t added hs hadded
    obtain ⟨ms, hms, ht⟩ := bind_eq_ok.mp hs
    obtain ⟨ms', hms', ha⟩ := bind_eq_ok.mp hadded
    cases ht
    cases ha
    obtain rfl : ms = ms' := Except.ok.inj (hms.symm.trans hms')
    exact hP.pushAll s b ms
  cases k with
  | type =>
    intro s t added hs hadded
    obtain ⟨types, -, ht⟩ := bind_eq_ok.mp hs
    obtain ⟨types', -, ha⟩ := bind_eq_ok.mp hadded
    cases ht
    cases ha
    exact iff_of_false (fun ht => nomatch hP.bare ht) fun ha => nomatch hP.bare ha.2
  | anyOf | oneOf =>
    intro s t added hs hadded
    obtain ⟨schemas, hv, hs⟩ := bind_eq_ok.mp hs
    obtain ⟨schemas', hv', hadded⟩ := bind_eq_ok.mp hadded
    obtain rfl : schemas = schemas' := Except.ok.inj (hv.symm.trans hv')
    exact Splits.branches hP schemas _ s t added hs hadded
  | allOf =>
    intro s t added hs hadded
    obtain ⟨schemas, hv, hs⟩ := bind_eq_ok.mp hs
    obtain ⟨schemas', hv', hadded⟩ := bind_eq_ok.mp hadded
    obtain rfl : schemas = schemas' := Except.ok.inj (hv.symm.trans hv')
    exact Splits.foldlM hP.empty (fun sub _ => hm sub) (fun sub _ => h sub) s t added hs hadded
  | _ => exact demanded _

theorem splits_member (hP : Additive P) {enrich : Enrich}
    (hm : ∀ sub, Merges o (enrich sub)) (h : ∀ sub, Splits P (enrich sub)) (table : Table)
    (members : Json.Members) (pass : Pass) (member : String × Json) :
    Splits P fun s => enrichMember enrich o table members pass s member := by
  simp only [enrichMember]
  split
  · exact splits_enrich hP hm h _
  · intro s t added hs hadded
    cases hs
    cases hadded
    exact (and_iff_left hP.empty).symm

theorem splits_enrichAt (hP : Additive P) (o : Options) (table : Table) (fuel : Nat)
    (schema : Json) : Splits P (enrichAt o table fuel schema) := by
  induction fuel generalizing schema with
  | zero =>
    intro s t added hs
    cases hs
  | succ fuel ih =>
    intro s t added hs hadded
    cases schema with
    | object members =>
      have step (pass : Pass) (member : String × Json) :=
        splits_member hP (merges_enrichAt o table fuel) ih table members pass member
      have merge (pass : Pass) (member : String × Json) :=
        merges_member (merges_enrichAt o table fuel) table members pass member
      exact Splits.foldlM hP.empty (fun pass _ => .foldlM fun member _ => merge pass member)
        (fun pass _ => .foldlM hP.empty (fun member _ => merge pass member)
          fun member _ => step pass member) s t added hs hadded
    | bool b =>
      cases b with
      | true =>
        cases hs
        cases hadded
        exact (and_iff_left hP.empty).symm
      | false =>
        cases hs
        cases hadded
        exact hP.pushAll s .always [.look fun i => !i.isPresent]
    | _ => cases hs

theorem firm_enrich {enrich : Enrich} {n : Node}
    (h : ∀ sub s t, s.Firm → enrich sub s = .ok t → t.Firm) (k : Keyword) {s t : Reading}
    (hs : s.Firm) (ht : k.enrich enrich n s = .ok t) : t.Firm := by
  cases k with
  | type =>
    obtain ⟨types, -, ht⟩ := bind_eq_ok.mp ht
    cases ht
    exact hs
  | anyOf | oneOf =>
    obtain ⟨schemas, -, ht⟩ := bind_eq_ok.mp ht
    obtain ⟨ms, -, ht⟩ := bind_eq_ok.mp ht
    cases ht
    exact Reading.firm_pushAll hs .always [_]
  | allOf =>
    obtain ⟨schemas, -, ht⟩ := bind_eq_ok.mp ht
    exact foldlM_keeps (fun sub _ => h sub) hs ht
  | _ =>
    obtain ⟨ms, -, ht⟩ := bind_eq_ok.mp ht
    cases ht
    exact Reading.firm_pushAll hs _ ms

theorem firm_enrichAt (o : Options) (table : Table) (fuel : Nat) (schema : Json) {s t : Reading}
    (hs : s.Firm) (ht : enrichAt o table fuel schema s = .ok t) : t.Firm := by
  induction fuel generalizing schema s t with
  | zero => cases ht
  | succ fuel ih =>
    cases schema with
    | object members =>
      refine foldlM_keeps (fun pass _ s t hs ht => ?_) hs ht
      refine foldlM_keeps (fun member _ s t hs ht => ?_) hs ht
      rw [enrichMember] at ht
      split at ht
      · exact firm_enrich (fun sub s t => ih sub) _ hs ht
      · cases ht
        exact hs
    | bool b =>
      cases b with
      | true =>
        cases ht
        exact hs
      | false =>
        cases ht
        exact Reading.firm_pushAll hs .always [.look fun i => !i.isPresent]
    | _ => cases ht

theorem interpret_firm (o : Options) (table : Table) (fuel : Nat) :
    ((enrichAt o table fuel).interpret o).Firm := by
  intro schema m h
  cases schema with
  | bool b => cases b <;> cases h <;> rfl
  | object members =>
    obtain ⟨t, ht, h⟩ := bind_eq_ok.mp h
    cases h
    exact (firm_enrichAt o table fuel _ Reading.firm_empty ht).finalize o
  | _ => cases h

end Runs

end SchemaLogic
