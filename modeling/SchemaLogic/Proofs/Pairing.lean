import SchemaLogic.Proofs.Twins

/-! # One schema read twice

A schema is read under two records of options, and the readings are asked about two values that are
related. Where the relation goes down to items, members and keys, and the options agree on the types
of related values, finished readings judge related values alike. -/
namespace SchemaLogic

/-! ## Views of a value -/

def entryOf (i : Option Json) (name : String) : Option Json :=
  (Instance.ofOption i).entries?.bind (·.get? name)

namespace Json

/-- The keys of an object or an array, read as strings, with the entries under them. -/
def visits (v : Json) : Option (List (Option Json × Option Json)) :=
  (Instance.value v).entries?.map fun entries => entries.keys.map fun k =>
    (some (.string k.text), ((Instance.value v).member (.key k)).subject)

end Json

def Options.check (o : Options) : JsonType → TypeCheck
  | .array => .array
  | .boolean => .boolean
  | .integer => .integer
  | .null => .null
  | .number => Scope.numberCheck o
  | .object => Scope.objectCheck o
  | .string => .string

def JsonType.bucket : JsonType → Bucket
  | .array => .arrays
  | .integer | .number => .numbers
  | .object => .objects
  | .string => .strings
  | .boolean | .null => .always

/-- The values that have items, or entries, for a group of conditions to look at. -/
def Bucket.reaches : Bucket → Option Json → Bool
  | .arrays, i => (Instance.ofOption i).items?.isSome
  | .objects, i => (Instance.ofOption i).entries?.isSome
  | _, _ => true

theorem reaches_of_hasType {o : Options} {t : JsonType} {i : Option Json}
    (h : (Instance.ofOption i).hasType (o.check t) = true) : t.bucket.reaches i = true := by
  cases t with
  | array =>
    cases i with
    | none => cases h
    | some v => cases v <;> first | rfl | cases h
  | object =>
    rw [Options.check, Scope.objectCheck] at h
    split at h
    · cases i with
      | none => cases h
      | some v => cases v <;> first | rfl | cases h
    · cases i with
      | none => cases h
      | some v => cases v <;> first | rfl | cases h
  | _ => rfl

/-! ## Pairings -/

/-- Two records of options, and which values under the one are compared with which values under
the other. Missing values are compared where the comparison is exact. -/
structure Pairing where
  left : Options
  right : Options
  alike : Json → Json → Prop
  exact : Prop

namespace Pairing

inductive Related (p : Pairing) : Option Json → Option Json → Prop where
  | value {v w} : p.alike v w → Related p (some v) (some w)
  | missing : p.exact → Related p none none

def Asked (p : Pairing) : Domain := fun b i j => p.Related i j ∧ b.reaches i = true

/-- Related values are of the same types and have related parts. -/
structure Lawful (p : Pairing) : Prop where
  unicode : p.left.unicodeAwareRegex = p.right.unicodeAwareRegex
  types : ∀ {v w}, p.alike v w → ∀ t, (Instance.value v).hasType (p.left.check t) =
    (Instance.value w).hasType (p.right.check t)
  text : ∀ {v w}, p.alike v w → v.string? = w.string?
  items : ∀ {v w}, p.alike v w → Option.Rel (List.Forall₂ p.alike) v.items? w.items?
  entry : ∀ {v w}, p.alike v w → ∀ name,
    Option.Rel p.alike (entryOf (some v) name) (entryOf (some w) name)
  visits : ∀ {v w}, p.alike v w → Option.Rel
    (List.Forall₂ fun a b => p.Related a.1 b.1 ∧ p.Related a.2 b.2) v.visits w.visits

variable {p : Pairing} {s s' : Reading}

theorem hasType_eq (hp : p.Lawful) {i j : Option Json} (h : p.Related i j) (t : JsonType) :
    (Instance.ofOption i).hasType (p.left.check t) =
      (Instance.ofOption j).hasType (p.right.check t) := by
  cases h with
  | value h => exact hp.types h t
  | missing _ =>
    have absent (c : TypeCheck) : Instance.missing.hasType c = false := by cases c <;> rfl
    exact (absent _).trans (absent _).symm

theorem isPresent_eq {i j : Option Json} (h : p.Related i j) :
    (Instance.ofOption i).isPresent = (Instance.ofOption j).isPresent := by cases h <;> rfl

end Pairing

/-! ## Finished readings -/

namespace Reading

theorem guards_eq (o : Options) (s : Reading) :
    s.guards o = [JsonType.string, .number, .array, .object].flatMap fun t =>
      (guard? (o.check t) (s.conditions t.bucket)).toList :=
  List.filterMap_eq_flatMap_toList id _

theorem all_guard? (check : TypeCheck) (ms : List (Meaning (Option Json))) (i : Option Json) :
    (guard? check ms).toList.all (·.holds i) =
      (!(Instance.ofOption i).hasType check || ms.all (·.holds i)) := by
  rw [guard?]
  split
  · next h => simp [List.isEmpty_iff.mp h]
  · simp

theorem consts_guard? (check : TypeCheck) (ms : List (Meaning (Option Json))) :
    (guard? check ms).toList.map (·.const?) = if ms.isEmpty then [] else
      [(Meaning.disj [.test fun _ => true, .conj ms]).const?] := by
  rw [guard?]
  split
  · rfl
  · refine congrArg ([·]) (Meaning.const?_joined_congr ?_ false)
    rfl

/-- Without declared types a reading is the conjunction of what it has collected; if that is
nothing, it asks for a present value. -/
theorem finalize_bare {s : Reading} (h : s.types = none) (o : Options) :
    s.finalize o = if (s.guards o ++ s.conditions .always).isEmpty then .look Instance.isPresent
      else .conj (s.guards o ++ s.conditions .always) := by
  rw [finalize, h]
  cases s.guards o <;> rfl

end Reading

section Finish

variable {p : Pairing} {s s' : Reading}

theorem Twins.flatMap {α β γ : Type} {exact : Prop} {P : α → β → Prop} {l : List γ}
    {f : γ → List (Meaning α)} {g : γ → List (Meaning β)}
    (h : ∀ c ∈ l, Twins exact P (f c) (g c)) : Twins exact P (l.flatMap f) (l.flatMap g) := by
  induction l with
  | nil => exact .nil
  | cons c l ih =>
    rw [List.flatMap_cons, List.flatMap_cons]
    exact (h c (by simp)).append (ih fun d hd => h d (.tail _ hd))

theorem Twins.isEmpty_eq {α β : Type} {exact : Prop} {P : α → β → Prop} {ms : List (Meaning α)}
    {ms' : List (Meaning β)} (h : Twins exact P ms ms') (he : exact) :
    ms.isEmpty = ms'.isEmpty := by
  simpa using congrArg List.isEmpty (h.consts he)

theorem twins_guards (hp : p.Lawful) (h : s.Twin p.exact p.Asked s') :
    Twins p.exact p.Related (s.guards p.left) (s'.guards p.right) := by
  rw [Reading.guards_eq, Reading.guards_eq]
  refine Twins.flatMap fun t _ => ⟨fun i j hij => ?_, fun he => ?_⟩
  · rw [Reading.all_guard?, Reading.all_guard?, ← p.hasType_eq hp hij t]
    cases ht : (Instance.ofOption i).hasType (p.left.check t) with
    | false => rfl
    | true => rw [(h.conditions t.bucket).all i j ⟨hij, reaches_of_hasType ht⟩]
  · rw [Reading.consts_guard?, Reading.consts_guard?, (h.conditions t.bucket).isEmpty_eq he]
    have whole : (Meaning.conj (s.conditions t.bucket)).const? =
        (Meaning.conj (s'.conditions t.bucket)).const? := (h.conditions t.bucket).conj.const? he
    split
    · rfl
    · refine congrArg ([·]) (Meaning.const?_joined_congr ?_ false)
      simp [whole]

theorem twin_collected {ms ms' : List (Meaning (Option Json))}
    (h : Twins p.exact p.Related ms ms') : Twin p.exact p.Related
      (if ms.isEmpty then .look Instance.isPresent else .conj ms)
      (if ms'.isEmpty then .look Instance.isPresent else .conj ms') := by
  by_cases he : p.exact
  · rw [h.isEmpty_eq he]
    split
    · exact .test fun i j hij => p.isPresent_eq hij
    · exact h.conj
  · -- Only present values are compared, and an empty conjunction holds of these as well.
    have collected (ms : List (Meaning (Option Json))) (v : Json) :
        Meaning.holds (if ms.isEmpty then .look Instance.isPresent else .conj ms) (some v) =
          ms.all (·.holds (some v)) := by
      cases ms with
      | nil => rfl
      | cons m ms => exact Meaning.holds_conj _ _
    constructor
    · intro i j hij
      cases hij with
      | value hvw => rw [collected, collected, h.all _ _ (.value hvw)]
      | missing hexact => exact absurd hexact he
    · intro hexact
      exact absurd hexact he

theorem twin_hasType (hp : p.Lawful) (t : JsonType) : Twin p.exact p.Related
    (.look (·.hasType (p.left.check t))) (.look (·.hasType (p.right.check t))) :=
  .test fun _ _ hij => p.hasType_eq hp hij t

theorem twin_clause (hp : p.Lawful) (h : s.Twin p.exact p.Asked s') (t : JsonType) :
    Twin p.exact p.Related (Reading.clause (p.left.check t) (s.conditions t.bucket))
      (Reading.clause (p.right.check t) (s'.conditions t.bucket)) := by
  refine Twins.conj ⟨fun i j hij => ?_, fun he => ?_⟩
  · rw [List.all_cons, List.all_cons, (twin_hasType hp t).holds i j hij]
    cases ht : (Instance.ofOption i).hasType (p.left.check t) with
    | false =>
      have hf := (p.hasType_eq hp hij t).symm.trans ht
      rw [Meaning.holds_look, hf, Bool.false_and, Bool.false_and]
    | true => rw [(h.conditions t.bucket).all i j ⟨hij, reaches_of_hasType ht⟩]
  · exact congrArg (none :: ·) ((h.conditions t.bucket).consts he)

theorem forall₂_clauses (hp : p.Lawful) (h : s.Twin p.exact p.Asked s') (declared : TypeSet) :
    List.Forall₂ (Twin p.exact p.Related) (s.clauses p.left declared)
      (s'.clauses p.right declared) := by
  have given (c : Bool) {m m' : Meaning (Option Json)} (hm : Twin p.exact p.Related m m') :
      List.Forall₂ (Twin p.exact p.Related) (if c then [m] else []) (if c then [m'] else []) := by
    cases c with
    | true => exact .cons hm .nil
    | false => exact .nil
  have clause := twin_clause hp h
  refine List.rel_append (List.rel_append (List.rel_append (List.rel_append
    (List.rel_append (given _ (clause .string)) ?_) (given _ (clause .array)))
    (given _ (clause .object))) (given _ (twin_hasType hp .boolean)))
    (given _ (twin_hasType hp .null))
  cases declared.contains .number with
  | true => exact .cons (clause .number) .nil
  | false => exact given _ (clause .integer)

theorem twin_finalize (hp : p.Lawful) (h : s.Twin p.exact p.Asked s') :
    Twin p.exact p.Related (s.finalize p.left) (s'.finalize p.right) := by
  have always : Twins p.exact p.Related (s.conditions .always) (s'.conditions .always) :=
    (h.conditions .always).mono fun i j hij => ⟨hij, rfl⟩
  cases ht : s.types with
  | none =>
    rw [Reading.finalize_bare ht, Reading.finalize_bare (h.types ▸ ht)]
    exact twin_collected ((twins_guards hp h).append always)
  | some declared =>
    rw [Reading.finalize, Reading.finalize, ← h.types, ht]
    exact Twins.conj ((Twins.singleton (.disj (forall₂_clauses hp h declared))).append always)

theorem agree_interpret (hp : p.Lawful) {f g : Enrich} {schema : Json}
    (h : Agree Eq (Reading.Twin p.exact p.Asked) (f schema {}) (g schema {})) :
    Agree Eq (Twin p.exact p.Related) (f.interpret p.left schema)
      (g.interpret p.right schema) := by
  cases schema with
  | bool b =>
    cases b with
    | true => exact .ok (.test fun i j hij => p.isPresent_eq hij)
    | false => exact .ok (.test fun i j hij => congrArg not (p.isPresent_eq hij))
  | object members => exact h.bind fun t t' ht => .ok (twin_finalize hp ht)
  | _ => exact .error rfl

end Finish

end SchemaLogic
