import SchemaLogic.Predicate.Basic
import SchemaLogic.Schema.Scope

/-! # What conditions mean

A folded condition is a constant or a test of the value that it is about. Folding asks which of
the two its operands are, so a meaning keeps that apart. Conditions see JSON values and missing
ones; a key counts as the string that it is written as. -/
namespace SchemaLogic

namespace Instance

def subject : Instance → Option Json
  | .missing => none
  | .value json => some json
  | .key k => some (.string k.text)

@[simp] theorem ofOption_some (json : Json) : ofOption (some json) = .value json := rfl

@[simp] theorem subject_ofOption (s : Option Json) : (ofOption s).subject = s := by cases s <;> rfl

@[simp] theorem subject_value (json : Json) : (value json).subject = some json := rfl

@[simp] theorem subject_key (k : Key) : (key k).subject = some (.string k.text) := rfl

/-- A function that cannot tell a key from the string of its text. -/
def KeyBlind {β : Type} (f : Instance → β) : Prop :=
  ∀ k : Key, f (.key k) = f (.value (.string k.text))

theorem KeyBlind.apply {β : Type} {f : Instance → β} (h : KeyBlind f) (i : Instance) :
    f (ofOption i.subject) = f i := by
  cases i with
  | key k => exact (h k).symm
  | _ => rfl

@[simp] theorem items?_subject (i : Instance) : (ofOption i.subject).items? = i.items? :=
  KeyBlind.apply (fun _ => rfl) i

@[simp] theorem entries?_subject (i : Instance) : (ofOption i.subject).entries? = i.entries? :=
  KeyBlind.apply (fun _ => rfl) i

@[simp] theorem member_subject (i k : Instance) : (ofOption i.subject).member k = i.member k := by
  simp only [member, entries?_subject]

theorem keyBlind_measure? (measure : Measure) : KeyBlind (·.measure? measure) := by
  intro k
  cases measure <;> rfl

theorem keyBlind_inTable (items : List Json) : KeyBlind (·.inTable items) := by
  intro k
  have same (item : Json) : (item.string? == some k.text) = item.same (.string k.text) := by
    cases item <;> simp [Json.string?, Json.same]
  simp only [inTable, same]

end Instance

/-- All of a list for `true`, some of it for `false`. -/
def quantified {α : Type} (b : Bool) (p : α → Bool) (l : List α) : Bool :=
  if b then l.all p else l.any p

inductive Meaning (α : Type) where
  | const (b : Bool)
  | test (passes : α → Bool)

namespace Meaning

variable {α β : Type}

def const? : Meaning α → Option Bool
  | .const b => some b
  | .test _ => none

def holds : Meaning α → α → Bool
  | .const b, _ => b
  | .test passes, a => passes a

def known (c : Option Bool) (passes : α → Bool) : Meaning α :=
  match c with
  | some b => .const b
  | none => .test passes

@[simp] theorem const?_known (c : Option Bool) (passes : α → Bool) :
    (known c passes).const? = c := by cases c <;> rfl

theorem holds_known (c : Option Bool) (passes : α → Bool) (a : α) :
    (known c passes).holds a = c.getD (passes a) := by cases c <;> rfl

theorem holds_of_const? {m : Meaning α} {b : Bool} (h : m.const? = some b) (a : α) :
    m.holds a = b := by
  cases m with
  | const c => exact Option.some.inj h
  | test passes => cases h

def joined (b : Bool) (ms : List (Meaning α)) : Meaning α :=
  known
    (if ms.any (·.const? == some !b) then some !b
      else if ms.all (·.const?.isSome) then some b else none)
    fun a => quantified b (·.holds a) ms

theorem holds_joined (b : Bool) (ms : List (Meaning α)) (a : α) :
    (joined b ms).holds a = quantified b (·.holds a) ms := by
  rw [joined, holds_known]
  split
  · next h =>
    obtain ⟨m, hm, hc⟩ : ∃ m ∈ ms, m.const? = some !b := by simpa using h
    have hh := holds_of_const? hc a
    cases b <;> simpa [quantified] using ⟨m, hm, hh⟩
  · next h =>
    split
    · next hall =>
      have hb : ∀ m ∈ ms, m.holds a = b := by
        intro m hm
        obtain ⟨c, hc⟩ := Option.isSome_iff_exists.mp (List.all_eq_true.mp hall m hm)
        have hne : c ≠ !b := fun he => h (List.any_eq_true.mpr ⟨m, hm, by simp [hc, he]⟩)
        rw [holds_of_const? hc a]
        cases b <;> cases c <;> simp_all
      cases b <;> simpa [quantified] using hb
    · rfl

theorem const?_joined_of_tests (b : Bool) {m : Meaning α} {ms : List (Meaning α)}
    (h : ∀ x ∈ m :: ms, x.const? = none) : (joined b (m :: ms)).const? = none := by
  have hany : (m :: ms).any (·.const? == some !b) = false :=
    List.any_eq_false.mpr fun x hx => by simp [h x hx]
  have hall : (m :: ms).all (·.const?.isSome) = false := by simp [h m (by simp)]
  simp [joined, hany, hall]

def conj (ms : List (Meaning α)) : Meaning α := joined true ms

def disj (ms : List (Meaning α)) : Meaning α := joined false ms

@[simp] theorem holds_conj (ms : List (Meaning α)) (a : α) :
    (conj ms).holds a = ms.all (·.holds a) := holds_joined true ms a

@[simp] theorem holds_disj (ms : List (Meaning α)) (a : α) :
    (disj ms).holds a = ms.any (·.holds a) := holds_joined false ms a

def negate : Meaning α → Meaning α
  | .const b => .const !b
  | .test passes => .test fun a => !passes a

def one (ms : List (Meaning α)) : Meaning α :=
  known
    (if 2 ≤ ms.countP (·.const? == some true) then some false
      else if ms.all (·.const?.isSome) then some (ms.countP (·.const? == some true) == 1) else none)
    fun a => ms.countP (·.holds a) == 1

@[simp] theorem holds_one (ms : List (Meaning α)) (a : α) :
    (one ms).holds a = (ms.countP (·.holds a) == 1) := by
  rw [one, holds_known]
  split
  · next h =>
    have hle : ms.countP (·.const? == some true) ≤ ms.countP (·.holds a) :=
      List.countP_mono_left fun m _ hm => holds_of_const? (by simpa using hm) a
    have hne : ms.countP (·.holds a) ≠ 1 := by omega
    simpa using hne
  · split
    · next hall =>
      have hc : ms.countP (·.const? == some true) = ms.countP (·.holds a) := by
        refine List.countP_congr fun m hm => ?_
        obtain ⟨c, hc⟩ := Option.isSome_iff_exists.mp (List.all_eq_true.mp hall m hm)
        simp [hc, holds_of_const? hc a]
      simp [hc]
    · rfl

def along (f : α → β) : Meaning β → Meaning α
  | .const b => .const b
  | .test passes => .test fun a => passes (f a)

@[simp] theorem const?_along (f : α → β) (m : Meaning β) : (m.along f).const? = m.const? := by
  cases m <;> rfl

@[simp] theorem holds_along (f : α → β) (m : Meaning β) (a : α) :
    (m.along f).holds a = m.holds (f a) := by cases m <;> rfl

/-- A loop over parts of a value, which ends at the first part that does not give `b`. A body that
always gives `b` makes the loop constant, whatever the value. -/
def looped (b : Bool) (rounds : (β → Bool) → α → Bool) (m : Meaning β) : Meaning α :=
  known (if m.const? = some b then some b else none) (rounds m.holds)

@[simp] theorem holds_negate (m : Meaning α) (a : α) : m.negate.holds a = !m.holds a := by
  cases m <;> rfl

def look (f : Instance → Bool) : Meaning (Option Json) := .test fun s => f (.ofOption s)

@[simp] theorem holds_test (passes : α → Bool) (a : α) : (test passes).holds a = passes a := rfl

@[simp] theorem holds_look (f : Instance → Bool) (s : Option Json) :
    (look f).holds s = f (.ofOption s) := rfl

def size (measure : Measure) (op : CmpOp) (limit : Nat) : Meaning (Option Json) :=
  look fun i => (i.measure? measure).any fun n => op.holds (Ord.compare n limit)

def property (name : String) : Meaning (Option Json) → Meaning (Option Json) :=
  along fun s => (Instance.ofOption s).entries?.bind (·.get? name)

def index (i : Nat) : Meaning (Option Json) → Meaning (Option Json) :=
  along fun s => (Instance.ofOption s).items?.bind (·[i]?)

@[simp] theorem holds_size (measure : Measure) (op : CmpOp) (limit : Nat) (s : Option Json) :
    (size measure op limit).holds s =
      ((Instance.ofOption s).measure? measure).any fun n => op.holds (Ord.compare n limit) := rfl

@[simp] theorem holds_property (name : String) (m : Meaning (Option Json)) (s : Option Json) :
    (m.property name).holds s = m.holds ((Instance.ofOption s).entries?.bind (·.get? name)) :=
  holds_along _ m s

@[simp] theorem holds_index (i : Nat) (m : Meaning (Option Json)) (s : Option Json) :
    (m.index i).holds s = m.holds ((Instance.ofOption s).items?.bind (·[i]?)) :=
  holds_along _ m s

def everyItem : Meaning (Option Json) → Meaning (Option Json) :=
  looped true fun passes s =>
    (Instance.ofOption s).items?.any fun items => items.all fun x => passes (some x)

def someItem : Meaning (Option Json) → Meaning (Option Json) :=
  looped false fun passes s =>
    (Instance.ofOption s).items?.any fun items => items.any fun x => passes (some x)

/-- A condition on each key, read as a string, together with its member. -/
def everyKey : Meaning (Option Json × Option Json) → Meaning (Option Json) :=
  looped true fun passes s => (Instance.ofOption s).entries?.any fun entries =>
    entries.keys.all fun k =>
      passes (some (.string k.text), ((Instance.ofOption s).member (.key k)).subject)

end Meaning

/-- The meanings collected for one value: a scope without the expressions. -/
structure Reading where
  types : Option TypeSet := none
  conditions : Bucket → List (Meaning (Option Json)) := fun _ => []

namespace Reading

def fork (s : Reading) : Reading := { types := s.types }

def push (s : Reading) (bucket : Bucket) (m : Meaning (Option Json)) : Reading :=
  if m.const? = some true then s
  else { s with conditions := fun b =>
    if b = bucket then s.conditions b ++ [m] else s.conditions b }

def pushAll (s : Reading) (bucket : Bucket) (ms : List (Meaning (Option Json))) : Reading :=
  ms.foldl (·.push bucket ·) s

def declare (s : Reading) (types : TypeSet) : Reading :=
  { s with types := some (match s.types with
    | some declared => declared.intersect types
    | none => types) }

def guard? (check : TypeCheck) (ms : List (Meaning (Option Json))) :
    Option (Meaning (Option Json)) :=
  if ms.isEmpty then none else some (.disj [.negate (.look (·.hasType check)), .conj ms])

def guards (o : Options) (s : Reading) : List (Meaning (Option Json)) :=
  [guard? .string (s.conditions .strings),
   guard? (Scope.numberCheck o) (s.conditions .numbers),
   guard? .array (s.conditions .arrays),
   guard? (Scope.objectCheck o) (s.conditions .objects)].filterMap id

def clause (check : TypeCheck) (ms : List (Meaning (Option Json))) : Meaning (Option Json) :=
  .conj (.look (·.hasType check) :: ms)

def clauses (o : Options) (s : Reading) (declared : TypeSet) : List (Meaning (Option Json)) :=
  let given := fun (t : JsonType) (m : Meaning (Option Json)) =>
    if declared.contains t then [m] else []
  given .string (clause .string (s.conditions .strings))
    ++ (if declared.contains .number then [clause (Scope.numberCheck o) (s.conditions .numbers)]
      else given .integer (clause .integer (s.conditions .numbers)))
    ++ given .array (clause .array (s.conditions .arrays))
    ++ given .object (clause (Scope.objectCheck o) (s.conditions .objects))
    ++ given .boolean (.look (·.hasType .boolean))
    ++ given .null (.look (·.hasType .null))

def finalize (o : Options) (s : Reading) : Meaning (Option Json) :=
  match s.types with
  | none =>
    let guarded := guards o s
    if guarded.isEmpty && (s.conditions .always).isEmpty then .look Instance.isPresent
    else .conj (guarded ++ s.conditions .always)
  | some declared => .conj (.disj (clauses o s declared) :: s.conditions .always)

end Reading

end SchemaLogic
