import SchemaLogic.Proofs.Denotation

/-! # Readings merge

Enriching a reading by a schema leaves the values that meet both the reading and the schema: the
declared types and the groups of conditions can be read apart, for every value that does not pass
for an array and an object at once. -/
namespace SchemaLogic

theorem bind_eq_ok {ε α β : Type} {x : Except ε α} {f : α → Except ε β} {b : β} :
    x >>= f = .ok b ↔ ∃ a, x = .ok a ∧ f a = .ok b := by
  cases x <;> simp [Bind.bind, Except.bind]

theorem forall_ok_iff {ε α : Type} {x : Except ε α} {a : α} (h : x = .ok a) {p : α → Prop} :
    (∀ b, x = .ok b → p b) ↔ p a := by
  simp [h]

def Bucket.covers : Bucket → Json → Bool
  | .strings, .string _ => true
  | .numbers, .number _ => true
  | .arrays, .array _ => true
  | .objects, .object _ => true
  | .always, _ => true
  | _, _ => false

def TypeSet.admits (types : TypeSet) : Json → Bool
  | .null => types.contains .null
  | .bool _ => types.contains .boolean
  | .number n => types.contains .number || types.contains .integer && n.isInteger
  | .string _ => types.contains .string
  | .array _ => types.contains .array
  | .object _ => types.contains .object

theorem TypeSet.admits_intersect (s t : TypeSet) (v : Json) :
    (s.intersect t).admits v = (s.admits v && t.admits v) := by
  cases v with
  | number n =>
    simp only [admits, intersect]
    cases s.contains .number <;> cases s.contains .integer <;> cases t.contains .number <;>
      cases t.contains .integer <;> cases n.isInteger <;> rfl
  | _ => simp [admits, intersect]

/-- A value does not pass for an array and an object at once. -/
def Options.separates (o : Options) (v : Json) : Bool := o.noArrayObject || !v.isArray

namespace Instance

variable {o : Options} {v : Json}

theorem hasType_string (v : Json) : (value v).hasType .string = Bucket.strings.covers v := by
  cases v <;> rfl

theorem hasType_numberCheck (o : Options) (v : Json) :
    (value v).hasType (Scope.numberCheck o) = Bucket.numbers.covers v := by
  rw [Scope.numberCheck]
  split <;> cases v <;> rfl

theorem hasType_array (v : Json) : (value v).hasType .array = Bucket.arrays.covers v := by
  cases v <;> rfl

theorem hasType_objectCheck (h : o.separates v = true) :
    (value v).hasType (Scope.objectCheck o) = Bucket.objects.covers v := by
  rw [Scope.objectCheck]
  split
  · cases v <;> rfl
  · next ho =>
    cases v with
    | array items => simp [Options.separates, ho, Json.isArray] at h
    | _ => rfl

end Instance

namespace Reading

variable {o : Options} {v : Json}

/-- A value has a declared type and meets the conditions on values of its kind. -/
def Met (s : Reading) (v : Json) : Prop :=
  (∀ types, s.types = some types → types.admits v = true) ∧
    ∀ b : Bucket, b.covers v = true → ∀ m ∈ s.conditions b, m.holds (some v) = true

def MetKind (s : Reading) (v : Json) : Prop :=
  ∀ b : Bucket, b ≠ .always → b.covers v = true → ∀ m ∈ s.conditions b, m.holds (some v) = true

theorem metKind_iff (s : Reading) {b : Bucket} (hb : b ≠ .always) (hv : b.covers v = true) :
    s.MetKind v ↔ ∀ m ∈ s.conditions b, m.holds (some v) = true := by
  constructor
  · intro h
    exact h b hb hv
  · intro h c hc hcv
    have same : b = c := by cases v <;> cases b <;> cases c <;> simp_all [Bucket.covers]
    exact same ▸ h

theorem metKind_of_bare (s : Reading) (hv : ∀ b : Bucket, b = .always ∨ b.covers v = false) :
    s.MetKind v := by
  intro b hb hbv
  rcases hv b with ha | hf
  · exact (hb ha).elim
  · simp [hf] at hbv

theorem met_iff (s : Reading) (v : Json) :
    s.Met v ↔ (∀ types, s.types = some types → types.admits v = true) ∧ s.MetKind v ∧
      ∀ m ∈ s.conditions .always, m.holds (some v) = true := by
  apply and_congr_right
  intro _
  constructor
  · intro h
    exact ⟨fun b _ => h b, h .always rfl⟩
  · rintro ⟨hkind, halways⟩ b hb
    by_cases hne : b = .always
    · exact hne ▸ halways
    · exact hkind b hne hb

theorem guard?_met (check : TypeCheck) (ms : List (Meaning (Option Json))) (v : Json) :
    (∀ m, some m = guard? check ms → m.holds (some v) = true) ↔
      ((Instance.value v).hasType check = true → ∀ m ∈ ms, m.holds (some v) = true) := by
  rw [guard?]
  split
  · next h => simp [List.isEmpty_iff.mp h]
  · cases hc : (Instance.value v).hasType check <;> simp [hc]

theorem guards_met (h : o.separates v = true) (s : Reading) :
    (∀ m ∈ s.guards o, m.holds (some v) = true) ↔ s.MetKind v := by
  have each : (∀ m ∈ s.guards o, m.holds (some v) = true) ↔
      (Bucket.strings.covers v = true → ∀ m ∈ s.conditions .strings, m.holds (some v) = true) ∧
      (Bucket.numbers.covers v = true → ∀ m ∈ s.conditions .numbers, m.holds (some v) = true) ∧
      (Bucket.arrays.covers v = true → ∀ m ∈ s.conditions .arrays, m.holds (some v) = true) ∧
      (Bucket.objects.covers v = true → ∀ m ∈ s.conditions .objects, m.holds (some v) = true) := by
    rw [← Instance.hasType_string, ← Instance.hasType_numberCheck o, ← Instance.hasType_array,
      ← Instance.hasType_objectCheck h, ← guard?_met, ← guard?_met, ← guard?_met, ← guard?_met]
    simp [guards, or_imp, forall_and]
  rw [each]
  constructor
  · rintro ⟨hs, hn, ha, ho⟩ b hb
    cases b with
    | always => exact (hb rfl).elim
    | strings => exact hs
    | numbers => exact hn
    | arrays => exact ha
    | objects => exact ho
  · exact fun hb => ⟨hb _ nofun, hb _ nofun, hb _ nofun, hb _ nofun⟩

theorem clause_met (check : TypeCheck) (ms : List (Meaning (Option Json))) (v : Json) :
    (clause check ms).holds (some v) = true ↔
      (Instance.value v).hasType check = true ∧ ∀ m ∈ ms, m.holds (some v) = true := by
  simp [clause]

theorem exists_clause (s : Reading) (types : TypeSet) (v : Json) :
    (∃ m ∈ s.clauses o types, m.holds (some v) = true) ↔
      (types.contains .string = true ∧ (clause .string (s.conditions .strings)).holds (some v)) ∨
      (if types.contains .number = true then
        (clause (Scope.numberCheck o) (s.conditions .numbers)).holds (some v) = true
      else types.contains .integer = true ∧
        (clause .integer (s.conditions .numbers)).holds (some v)) ∨
      (types.contains .array = true ∧ (clause .array (s.conditions .arrays)).holds (some v)) ∨
      (types.contains .object = true ∧
        (clause (Scope.objectCheck o) (s.conditions .objects)).holds (some v)) ∨
      (types.contains .boolean = true ∧ (Instance.value v).hasType .boolean = true) ∨
      (types.contains .null = true ∧ (Instance.value v).hasType .null = true) := by
  have given (c : Prop) [Decidable c] (x : Meaning (Option Json)) :
      (∃ m ∈ (if c then [x] else []), m.holds (some v) = true) ↔ c ∧ x.holds (some v) = true := by
    split <;> simp_all
  have number (c : Prop) [Decidable c] (x : Meaning (Option Json))
      (l : List (Meaning (Option Json))) :
      (∃ m ∈ (if c then [x] else l), m.holds (some v) = true) ↔
        if c then x.holds (some v) = true else ∃ m ∈ l, m.holds (some v) = true := by
    split <;> simp
  simp only [clauses, List.mem_append, or_and_right, exists_or, given, number, or_assoc,
    Meaning.holds_look, Instance.ofOption_some]

/-- With declared types a value passes by the clause of its own type. -/
theorem clauses_met (h : o.separates v = true) (s : Reading) (types : TypeSet) :
    (∃ m ∈ s.clauses o types, m.holds (some v) = true) ↔
      types.admits v = true ∧ s.MetKind v := by
  rw [exists_clause]
  simp only [clause_met, Instance.hasType_string, Instance.hasType_numberCheck,
    Instance.hasType_array, Instance.hasType_objectCheck h]
  cases v with
  | string t =>
    rw [metKind_iff s nofun (b := .strings) rfl]
    simp [Bucket.covers, TypeSet.admits, Instance.hasType]
  | array items =>
    rw [metKind_iff s nofun (b := .arrays) rfl]
    simp [Bucket.covers, TypeSet.admits, Instance.hasType]
  | object members =>
    rw [metKind_iff s nofun (b := .objects) rfl]
    simp [Bucket.covers, TypeSet.admits, Instance.hasType]
  | number n =>
    rw [metKind_iff s nofun (b := .numbers) rfl]
    cases ht : types.contains .number <;>
      simp [Bucket.covers, TypeSet.admits, Instance.hasType, and_assoc, ht]
  | null =>
    rw [and_iff_left (s.metKind_of_bare fun b => by cases b <;> simp [Bucket.covers])]
    simp [Bucket.covers, TypeSet.admits, Instance.hasType]
  | bool b =>
    rw [and_iff_left (s.metKind_of_bare fun b => by cases b <;> simp [Bucket.covers])]
    simp [Bucket.covers, TypeSet.admits, Instance.hasType]

/-- The condition of a whole reading holds of the values that meet it. -/
theorem holds_finalize (h : o.separates v = true) (s : Reading) :
    (s.finalize o).holds (some v) = true ↔ s.Met v := by
  rw [met_iff]
  cases ht : s.types with
  | none =>
    rw [← guards_met h]
    simp only [finalize, ht]
    split
    · next he =>
      obtain ⟨hg, ha⟩ := Bool.and_eq_true_iff.mp he
      simp [List.isEmpty_iff.mp hg, List.isEmpty_iff.mp ha, Instance.isPresent]
    · simp
  | some types =>
    simp only [finalize, ht, Meaning.holds_conj, Meaning.holds_disj, List.all_cons,
      Bool.and_eq_true, List.all_eq_true, List.any_eq_true, clauses_met h, Option.some.injEq,
      forall_eq', and_assoc]

theorem met_empty (v : Json) : ({} : Reading).Met v := by simp [Met]

theorem met_fork (s : Reading) (v : Json) :
    s.fork.Met v ↔ ∀ types, s.types = some types → types.admits v = true := by simp [Met, fork]

theorem met_push (s : Reading) (b : Bucket) (m : Meaning (Option Json)) (v : Json) :
    (s.push b m).Met v ↔ s.Met v ∧ (b.covers v = true → m.holds (some v) = true) := by
  rw [push]
  split
  · next hc => simp [Meaning.holds_of_const? hc]
  · have mem (c : Bucket) (x : Meaning (Option Json)) :
        x ∈ (if c = b then s.conditions c ++ [m] else s.conditions c) ↔
          x ∈ s.conditions c ∨ c = b ∧ x = m := by
      split <;> simp_all
    simp only [Met, mem, and_assoc]
    refine and_congr_right fun _ => ⟨fun hall => ⟨fun c hc x hx => hall c hc x (.inl hx),
      fun hb => hall b hb m (.inr ⟨rfl, rfl⟩)⟩, ?_⟩
    rintro ⟨hall, hm⟩ c hc x (hx | ⟨rfl, rfl⟩)
    · exact hall c hc x hx
    · exact hm hc

theorem met_pushAll (s : Reading) (b : Bucket) (ms : List (Meaning (Option Json))) (v : Json) :
    (s.pushAll b ms).Met v ↔
      s.Met v ∧ (b.covers v = true → ∀ m ∈ ms, m.holds (some v) = true) := by
  induction ms generalizing s with
  | nil => simp [pushAll]
  | cons m ms ih =>
    have := ih (s.push b m)
    rw [met_push] at this
    simpa [pushAll, and_assoc, imp_and] using this

theorem met_declare (s : Reading) (types : TypeSet) (v : Json) :
    (s.declare types).Met v ↔ s.Met v ∧ types.admits v = true := by
  cases ht : s.types <;> simp [Met, declare, ht, TypeSet.admits_intersect, and_assoc, and_comm]

end Reading

/-! ## Runs on readings -/

/-- A run fails in the same way on every reading, or it leaves the values that meet both the
reading and what it makes of an empty one. -/
def Merges (o : Options) (run : Reading → Except CompileError Reading) : Prop :=
  (∃ e, ∀ s, run s = .error e) ∨
    ∃ added, run {} = .ok added ∧ ∀ s, ∃ s', run s = .ok s' ∧
      ∀ v, o.separates v = true → (s'.Met v ↔ s.Met v ∧ added.Met v)

namespace Merges

variable {o : Options} {run : Reading → Except CompileError Reading} {s s' added : Reading}

theorem met (h : Merges o run) (ha : run {} = .ok added) (hs : run s = .ok s') {v : Json}
    (hv : o.separates v = true) : s'.Met v ↔ s.Met v ∧ added.Met v := by
  rcases h with ⟨e, he⟩ | ⟨added', ha', h⟩
  · rw [he] at ha
    cases ha
  · obtain ⟨s'', hs', hm⟩ := h s
    obtain rfl : added' = added := by simpa [ha'] using ha
    obtain rfl : s'' = s' := by simpa [hs'] using hs
    exact hm v hv

theorem ok (h : Merges o run) (hs : run s = .ok s') (t : Reading) : ∃ t', run t = .ok t' := by
  rcases h with ⟨e, he⟩ | ⟨added, -, h⟩
  · rw [he] at hs
    cases hs
  · exact (h t).imp fun _ ht => ht.1

theorem id : Merges o fun s => .ok s :=
  .inr ⟨{}, rfl, fun s => ⟨s, rfl, fun v _ => by simp [Reading.met_empty]⟩⟩

theorem throw (e : CompileError) : Merges o fun _ => .error e := .inl ⟨e, fun _ => rfl⟩

theorem pushAll (b : Bucket) (ms : List (Meaning (Option Json))) :
    Merges o fun s => .ok (s.pushAll b ms) :=
  .inr ⟨_, rfl, fun s => ⟨_, rfl, fun v _ => by simp [Reading.met_pushAll, Reading.met_empty]⟩⟩

theorem declare (types : TypeSet) : Merges o fun s => .ok (s.declare types) :=
  .inr ⟨_, rfl, fun s => ⟨_, rfl, fun v _ => by simp [Reading.met_declare, Reading.met_empty]⟩⟩

theorem bind {next : Reading → Except CompileError Reading} (h : Merges o run)
    (k : Merges o next) : Merges o fun s => run s >>= next := by
  rcases h with ⟨e, he⟩ | ⟨added, ha, h⟩
  · exact .inl ⟨e, fun s => by simp [he, Bind.bind, Except.bind]⟩
  rcases k with ⟨e, he⟩ | ⟨more, hm, k⟩
  · refine .inl ⟨e, fun s => ?_⟩
    obtain ⟨s', hs, -⟩ := h s
    simp [hs, he, Bind.bind, Except.bind]
  · obtain ⟨both, hb, hboth⟩ := k added
    refine .inr ⟨both, by simp [ha, hb, Bind.bind, Except.bind], fun s => ?_⟩
    obtain ⟨s', hs, hmet⟩ := h s
    obtain ⟨s'', hs', hmet'⟩ := k s'
    refine ⟨s'', by simp [hs, hs', Bind.bind, Except.bind], fun v hv => ?_⟩
    rw [hmet' v hv, hmet v hv, hboth v hv, and_assoc]

theorem foldlM {α : Type} {step : Reading → α → Except CompileError Reading} {l : List α}
    (h : ∀ a ∈ l, Merges o (step · a)) : Merges o fun s => l.foldlM step s := by
  induction l with
  | nil => exact .id
  | cons a l ih =>
    simp only [List.foldlM_cons]
    exact .bind (h a (by simp)) (ih fun b hb => h b (.tail _ hb))

theorem foldlM_ok {α : Type} {step : Reading → α → Except CompileError Reading} {l : List α}
    (h : ∀ a ∈ l, Merges o (step · a)) (hok : ∀ a ∈ l, ∃ t, step {} a = .ok t) (s : Reading) :
    ∃ s', l.foldlM step s = .ok s' := by
  induction l generalizing s with
  | nil => exact ⟨s, rfl⟩
  | cons a l ih =>
    obtain ⟨t, ht⟩ := hok a (by simp)
    obtain ⟨mid, hmid⟩ := (h a (by simp)).ok ht s
    rw [List.foldlM_cons, hmid]
    exact ih (fun b hb => h b (.tail _ hb)) (fun b hb => hok b (.tail _ hb)) mid

/-- After a whole list of steps a value meets what each step adds by itself. -/
theorem foldlM_met {α : Type} {step : Reading → α → Except CompileError Reading} {l : List α}
    (h : ∀ a ∈ l, Merges o (step · a)) (hs : l.foldlM step s = .ok s') :
    (∀ a ∈ l, ∃ t, step {} a = .ok t) ∧ ∀ v, o.separates v = true →
      (s'.Met v ↔ s.Met v ∧ ∀ a ∈ l, ∀ t, step {} a = .ok t → t.Met v) := by
  induction l generalizing s with
  | nil =>
    cases hs
    simp
  | cons a l ih =>
    rw [List.foldlM_cons, bind_eq_ok] at hs
    obtain ⟨mid, ha, hs⟩ := hs
    obtain ⟨hok, hmet⟩ := ih (fun b hb => h b (.tail _ hb)) hs
    have hstep := h a (by simp)
    obtain ⟨added, hadded⟩ := hstep.ok ha {}
    refine ⟨by simpa using ⟨⟨added, hadded⟩, hok⟩, fun v hv => ?_⟩
    rw [hmet v hv, hstep.met hadded ha hv, and_assoc]
    simp [hadded]

end Merges

section Keywords

variable {o : Options} {enrich : Enrich} {n : Node}

/-- Branches start with the declared types, so on values that have one of these types they mean
what they mean by themselves. -/
theorem branchMeanings_merge (h : ∀ sub, Merges n.options (enrich sub)) (schemas : List Json) :
    (∃ e, ∀ s, n.branchMeanings enrich s schemas = .error e) ∨
      ∃ base, n.branchMeanings enrich {} schemas = .ok base ∧
        ∀ s, ∃ ms, n.branchMeanings enrich s schemas = .ok ms ∧
          ∀ v, n.options.separates v = true → s.fork.Met v →
            ms.map (·.holds (some v)) = base.map (·.holds (some v)) := by
  induction schemas with
  | nil => exact .inr ⟨[], rfl, fun s => ⟨[], rfl, fun v _ _ => rfl⟩⟩
  | cons sub rest ih =>
    have run (s : Reading) : n.branchMeanings enrich s (sub :: rest) = do
        let branch ← enrich sub s.fork
        let ms ← n.branchMeanings enrich s rest
        return branch.finalize n.options :: ms := by
      simp [Node.branchMeanings]
    rcases h sub with ⟨e, he⟩ | ⟨added, ha, hsub⟩
    · exact .inl ⟨e, fun s => by rw [run, he]; rfl⟩
    rcases ih with ⟨e, he⟩ | ⟨base, hb, hrest⟩
    · refine .inl ⟨e, fun s => ?_⟩
      obtain ⟨s', hs, -⟩ := hsub s.fork
      rw [run, hs, he]
      rfl
    refine .inr ⟨added.finalize n.options :: base, ?_, fun s => ?_⟩
    · have hfork : ({} : Reading).fork = {} := rfl
      rw [run, hfork, ha, hb]
      rfl
    · obtain ⟨branch, hs, hmet⟩ := hsub s.fork
      obtain ⟨ms, hms, hmap⟩ := hrest s
      refine ⟨branch.finalize n.options :: ms, by rw [run, hs, hms]; rfl, fun v hv hf => ?_⟩
      have head : (branch.finalize n.options).holds (some v)
          = (added.finalize n.options).holds (some v) := by
        rw [Bool.eq_iff_iff, Reading.holds_finalize hv, Reading.holds_finalize hv, hmet v hv,
          and_iff_right hf]
      rw [List.map_cons, List.map_cons, head, hmap v hv hf]

/-- A combination of conditions looks at nothing but whether each of them holds. -/
def Combines (combine : List (Meaning (Option Json)) → Meaning (Option Json))
    (verdict : List Bool → Bool) : Prop :=
  ∀ ms s, (combine ms).holds s = verdict (ms.map (·.holds s))

theorem combines_disj : Combines .disj (·.any id) := by
  intro ms s
  simp

theorem combines_one : Combines .one (·.countP id == 1) := by
  intro ms s
  simp [List.countP_map]

theorem Merges.branches (h : ∀ sub, Merges n.options (enrich sub)) (schemas : List Json)
    {combine : List (Meaning (Option Json)) → Meaning (Option Json)} {verdict : List Bool → Bool}
    (hc : Combines combine verdict) :
    Merges n.options fun s =>
      n.branchMeanings enrich s schemas >>= fun ms => pure (s.push .always (combine ms)) := by
  rcases branchMeanings_merge h schemas with ⟨e, he⟩ | ⟨base, hb, hall⟩
  · exact .inl ⟨e, fun s => by simp only [he]; rfl⟩
  · refine .inr ⟨_, by simp only [hb]; rfl, fun s => ?_⟩
    obtain ⟨ms, hms, hmap⟩ := hall s
    refine ⟨_, by simp only [hms]; rfl, fun v hv => ?_⟩
    simp only [Reading.met_push, Reading.met_empty, true_and, hc ms, hc base]
    apply and_congr_right
    intro hs
    rw [hmap v hv ((Reading.met_fork s v).mpr hs.1)]

variable [Pattern.Engines]

theorem merges_enrich (h : ∀ sub, Merges n.options (enrich sub)) (k : Keyword) :
    Merges n.options fun s => k.enrich enrich n s := by
  have demanded (k : Keyword) (run : Reading → Except CompileError Reading)
      (hrun : run = fun s => k.demands (enrich.interpret n.options) n >>= fun ms =>
        pure (s.pushAll k.bucket ms)) : Merges n.options run := by
    subst hrun
    cases k.demands (enrich.interpret n.options) n with
    | error e => exact .throw e
    | ok ms => exact .pushAll k.bucket ms
  cases k with
  | type =>
    simp only [Keyword.enrich]
    cases Node.declaredTypes n.value with
    | error e => exact .throw e
    | ok types => exact .declare types
  | anyOf =>
    simp only [Keyword.enrich]
    cases expectNonEmptyArray "anyOf" n.value with
    | error e => exact .throw e
    | ok schemas => exact .branches h schemas combines_disj
  | oneOf =>
    simp only [Keyword.enrich]
    cases expectNonEmptyArray "oneOf" n.value with
    | error e => exact .throw e
    | ok schemas => exact .branches h schemas combines_one
  | allOf =>
    simp only [Keyword.enrich]
    cases expectNonEmptyArray "allOf" n.value with
    | error e => exact .throw e
    | ok schemas => exact .foldlM fun sub _ => h sub
  | _ => exact demanded _ _ rfl

theorem merges_member (h : ∀ sub, Merges o (enrich sub)) (table : Table) (members : Json.Members)
    (pass : Pass) (member : String × Json) :
    Merges o fun s => enrichMember enrich o table members pass s member := by
  simp only [enrichMember]
  split
  · exact merges_enrich h _
  · exact .id

end Keywords

theorem merges_enrichAt [Pattern.Engines] (o : Options) (table : Table) (fuel : Nat)
    (schema : Json) : Merges o (enrichAt o table fuel schema) := by
  induction fuel generalizing schema with
  | zero => exact .throw _
  | succ fuel ih =>
    cases schema with
    | object members =>
      exact .foldlM fun pass _ => .foldlM fun member _ => merges_member ih table members pass member
    | bool b =>
      cases b
      · exact .pushAll .always [.look fun i => !i.isPresent]
      · exact .id
    | _ => exact .throw _

theorem interpret_cases {enrich : Enrich} {o : Options} {schema : Json} {m : Meaning (Option Json)}
    (h : enrich.interpret o schema = .ok m) :
    (∃ b, schema = .bool b ∧ ∀ v, m.holds (some v) = b) ∨
      ∃ members t, schema = .object members ∧ enrich schema {} = .ok t ∧ m = t.finalize o := by
  cases schema with
  | bool b => exact .inl ⟨b, rfl, fun v => by cases b <;> cases h <;> rfl⟩
  | object members =>
    simp only [Enrich.interpret, bind_eq_ok] at h
    obtain ⟨t, ht, hm⟩ := h
    cases hm
    exact .inr ⟨members, t, rfl, ht, rfl⟩
  | _ => cases h

end SchemaLogic
