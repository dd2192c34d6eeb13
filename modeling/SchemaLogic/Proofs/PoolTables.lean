import SchemaLogic.Predicate.Pool

/-! # The tables of a pool

A look-up never sees the declarations. Its answers are right because the tables are kept in step
with them: a declaration is recorded under its own key, and only where that key has no name yet. -/
namespace SchemaLogic

/-- Routines have no key, so each of them is a declaration of its own. -/
def Declaration.key? : Declaration → Option Pool.Key
  | .literal json => some (.literal json.text)
  | .pattern p => some (.pattern p.source)
  | .routine _ => none
  | .builtin b => some (.builtin b)

theorem Pattern.source_compile? [Engines] {unicode : Bool} {source : String} {p : Pattern}
    (h : Pattern.compile? unicode source = some p) : p.source = source := by
  unfold Pattern.compile? at h
  split at h
  · cases h
    rfl
  · obtain ⟨form, -, rfl⟩ := Option.map_eq_some_iff.mp h
    rfl

theorem Declarations.get_concat {pool : Declarations} {d e : Declaration} {n : Name} :
    (pool ++ [d])[n]? = some e ↔ pool[n]? = some e ∨ n = pool.length ∧ d = e := by
  rcases Nat.lt_trichotomy n pool.length with hlt | rfl | hgt
  · rw [List.getElem?_append_left hlt, or_iff_left fun h => Nat.ne_of_lt hlt h.1]
  · simp
  · rw [List.getElem?_eq_none (by simp; omega), List.getElem?_eq_none (Nat.le_of_lt hgt)]
    simp [Nat.ne_of_gt hgt]

namespace Pool

/-- The tables find the declarations that have a key, each under its name, and nothing else. -/
def Coherent (pool : Pool) : Prop :=
  ∀ key name, pool.find? key = some name ↔
    ∃ d, pool.declarations[name]? = some d ∧ d.key? = some key

theorem coherent_empty : Coherent {} := by
  intro key name
  cases key <;> simp [find?]

/-- The pool after a declaration was added, in its table too if it has a key. -/
def declare (pool : Pool) (d : Declaration) : Pool :=
  match d.key? with
  | some key => (pool.add key d).2
  | none => (pool.push d).2

variable {pool : Pool} {key other : Key} {d : Declaration} {name : Name}

theorem find?_record_self (pool : Pool) (key : Key) (name : Name) :
    (pool.record key name).find? key = some name := by
  cases key <;> simp [record, find?]

theorem find?_record_other (pool : Pool) (name : Name) (h : other ≠ key) :
    (pool.record key name).find? other = pool.find? other := by
  cases key <;> cases other <;> try rfl
  all_goals
    simp only [record, find?, List.lookup_cons]
    split
    · next heq => exact absurd (by rw [eq_of_beq heq]) h
    · rfl

@[simp] theorem declarations_record (pool : Pool) (key : Key) (name : Name) :
    (pool.record key name).declarations = pool.declarations := by
  cases key <;> rfl

@[simp] theorem declarations_declare (pool : Pool) (d : Declaration) :
    (pool.declare d).declarations = pool.declarations ++ [d] := by
  unfold declare
  split
  · exact declarations_record _ _ _
  · rfl

theorem find?_declare_self (pool : Pool) (h : d.key? = some key) :
    (pool.declare d).find? key = some pool.declarations.length := by
  unfold declare
  rw [h]
  exact find?_record_self _ key _

theorem find?_declare_other (pool : Pool) (h : d.key? ≠ some key) :
    (pool.declare d).find? key = pool.find? key := by
  have pushed : (pool.push d).2.find? key = pool.find? key := by cases key <;> rfl
  unfold declare
  split
  · next own hown =>
    have differ : key ≠ own := by
      rintro rfl
      exact h hown
    exact (find?_record_other _ _ differ).trans pushed
  · exact pushed

/-- A declaration keeps the tables in step if nothing has its key yet. -/
theorem Coherent.declare (h : pool.Coherent)
    (fresh : ∀ key, d.key? = some key → pool.find? key = none) : (pool.declare d).Coherent := by
  intro key name
  simp only [declarations_declare, Declarations.get_concat, or_and_right, exists_or]
  rw [← h key name]
  -- A key that had a name already would now be found under the new one only.
  by_cases hkey : d.key? = some key
  · rw [find?_declare_self pool hkey, fresh key hkey]
    constructor
    · intro heq
      exact .inr ⟨d, ⟨(Option.some.inj heq).symm, rfl⟩, hkey⟩
    · rintro (hk | ⟨e, ⟨rfl, -⟩, -⟩)
      · cases hk
      · rfl
  · rw [find?_declare_other pool hkey]
    refine (or_iff_left ?_).symm
    rintro ⟨e, ⟨-, rfl⟩, hek⟩
    exact hkey hek

/-! ## Calls -/

theorem share_cases (pool : Pool) (hd : d.key? = some key) :
    (∃ name, pool.find? key = some name ∧ pool.share key d = (name, pool)) ∨
      pool.find? key = none ∧ pool.share key d = (pool.declarations.length, pool.declare d) := by
  unfold share declare
  rw [hd]
  cases pool.find? key with
  | some name => exact .inl ⟨name, rfl, rfl⟩
  | none => exact .inr ⟨rfl, rfl⟩

theorem addPattern?_cases [Pattern.Engines] (pool : Pool) (unicode : Bool) (source : String) :
    (∃ name, pool.find? (.pattern source) = some name ∧
        pool.addPattern? unicode source = some (name, pool)) ∨
      pool.find? (.pattern source) = none ∧
        ((∃ p, Pattern.compile? unicode source = some p ∧ pool.addPattern? unicode source =
            some (pool.declarations.length, pool.declare (.pattern p))) ∨
          Pattern.compile? unicode source = none ∧ pool.addPattern? unicode source = none) := by
  unfold addPattern?
  cases pool.find? (.pattern source) with
  | some name => exact .inl ⟨name, rfl, rfl⟩
  | none =>
    refine .inr ⟨rfl, ?_⟩
    cases hc : Pattern.compile? unicode source with
    | some p =>
      obtain rfl := Pattern.source_compile? hc
      exact .inl ⟨p, rfl, rfl⟩
    | none => exact .inr ⟨rfl, rfl⟩

/-! ## What calls preserve -/

variable [Pattern.Engines] {unicode : Bool}

/-- The tables are in step with the declarations, and every pattern is what its source compiles
to. -/
structure Sound (unicode : Bool) (pool : Pool) : Prop where
  coherent : pool.Coherent
  patterns : ∀ (n : Name) p, pool.declarations[n]? = some (.pattern p) →
    Pattern.compile? unicode p.source = some p

theorem sound_empty (unicode : Bool) : Sound unicode {} :=
  ⟨coherent_empty, nofun⟩

theorem Sound.declare (h : pool.Sound unicode)
    (fresh : ∀ key, d.key? = some key → pool.find? key = none)
    (hd : ∀ p, d = .pattern p → Pattern.compile? unicode p.source = some p) :
    (pool.declare d).Sound unicode where
  coherent := h.coherent.declare fresh
  patterns n p hn := by
    rw [declarations_declare, Declarations.get_concat] at hn
    rcases hn with hn | ⟨-, rfl⟩
    · exact h.patterns n p hn
    · exact hd p rfl

theorem Sound.share (h : pool.Sound unicode) (hk : d.key? = some key)
    (hd : ∀ p, d ≠ .pattern p) : (pool.share key d).2.Sound unicode := by
  rcases pool.share_cases hk with ⟨name, -, hr⟩ | ⟨hf, hr⟩
  · rw [hr]
    exact h
  · rw [hr]
    refine h.declare (fun own hown => ?_) fun p hp => absurd hp (hd p)
    obtain rfl : key = own := Option.some.inj (hk.symm.trans hown)
    exact hf

theorem Sound.addPattern {more : Pool} {source : String} (h : pool.Sound unicode)
    (ha : pool.addPattern? unicode source = some (name, more)) : more.Sound unicode := by
  rcases pool.addPattern?_cases unicode source with ⟨found, -, hr⟩ | ⟨hf, ⟨p, hc, hr⟩ | ⟨-, hr⟩⟩
  · rw [hr] at ha
    cases ha
    exact h
  · rw [hr] at ha
    cases ha
    obtain rfl := Pattern.source_compile? hc
    refine h.declare (fun key hkey => ?_) fun q hq => ?_
    · cases hkey
      exact hf
    · cases hq
      exact hc
  · rw [hr] at ha
    cases ha

end Pool

end SchemaLogic
