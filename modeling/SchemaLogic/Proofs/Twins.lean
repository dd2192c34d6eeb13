import SchemaLogic.Proofs.Agreement
import SchemaLogic.Proofs.Denotation

/-! # Conditions that judge alike

The same schema may be read twice, under different options, and asked about two values that are
related. What counts is that the conditions hold of related values alike. Folding also asks which
conditions are constant; that shows where a value may be missing, and there the constants have to
be the same. -/
namespace SchemaLogic

namespace Meaning

variable {α β : Type} {ms : List (Meaning α)} {ms' : List (Meaning β)}

theorem const?_negate (m : Meaning α) : m.negate.const? = m.const?.map not := by cases m <;> rfl

theorem any_consts (h : ms.map (·.const?) = ms'.map (·.const?)) (c : Option Bool → Bool) :
    ms.any (fun m => c m.const?) = ms'.any fun m => c m.const? := by
  simpa [Function.comp_def] using congrArg (·.any c) h

theorem all_consts (h : ms.map (·.const?) = ms'.map (·.const?)) (c : Option Bool → Bool) :
    ms.all (fun m => c m.const?) = ms'.all fun m => c m.const? := by
  simpa [Function.comp_def] using congrArg (·.all c) h

/-- Whether a combination is constant depends only on which of its parts are. -/
theorem const?_joined_congr (h : ms.map (·.const?) = ms'.map (·.const?)) (b : Bool) :
    (joined b ms).const? = (joined b ms').const? := by
  simp only [joined, const?_known, any_consts h (· == some !b), all_consts h (·.isSome)]

theorem const?_one_congr (h : ms.map (·.const?) = ms'.map (·.const?)) :
    (one ms).const? = (one ms').const? := by
  have count : ms.countP (·.const? == some true) = ms'.countP (·.const? == some true) := by
    simpa [List.countP_map, Function.comp_def] using congrArg (·.countP (· == some true)) h
  simp only [one, const?_known, count, all_consts h (·.isSome)]

end Meaning

/-! ## Conditions -/

/-- Two conditions hold of related values alike, and where that has to be exact, they are constant
alike. -/
structure Twin {α β : Type} (exact : Prop) (P : α → β → Prop) (m : Meaning α) (m' : Meaning β) :
    Prop where
  holds : ∀ a b, P a b → m.holds a = m'.holds b
  const? : exact → m.const? = m'.const?

structure Twins {α β : Type} (exact : Prop) (P : α → β → Prop) (ms : List (Meaning α))
    (ms' : List (Meaning β)) : Prop where
  all : ∀ a b, P a b → ms.all (·.holds a) = ms'.all (·.holds b)
  consts : exact → ms.map (·.const?) = ms'.map (·.const?)

section Conditions

variable {α β γ δ : Type} {exact : Prop} {P Q : α → β → Prop}
variable {m c : Meaning α} {m' c' : Meaning β} {ms : List (Meaning α)} {ms' : List (Meaning β)}

namespace Twin

theorem mono (h : Twin exact P m m') (hQ : ∀ a b, Q a b → P a b) : Twin exact Q m m' :=
  ⟨fun a b hab => h.holds a b (hQ a b hab), h.const?⟩

theorem const (b : Bool) : Twin exact P (.const b) (.const b) := ⟨fun _ _ _ => rfl, fun _ => rfl⟩

theorem test {f : α → Bool} {g : β → Bool} (h : ∀ a b, P a b → f a = g b) :
    Twin exact P (.test f) (.test g) := ⟨h, fun _ => rfl⟩

theorem negate (h : Twin exact P m m') : Twin exact P m.negate m'.negate := by
  constructor
  · intro a b hab
    rw [Meaning.holds_negate, Meaning.holds_negate, h.holds a b hab]
  · intro he
    rw [Meaning.const?_negate, Meaning.const?_negate, h.const? he]

theorem along {R : γ → δ → Prop} {f : γ → α} {g : δ → β} (h : Twin exact P m m')
    (hR : ∀ c d, R c d → P (f c) (g d)) : Twin exact R (m.along f) (m'.along g) := by
  constructor
  · intro c d hcd
    rw [Meaning.holds_along, Meaning.holds_along, h.holds _ _ (hR c d hcd)]
  · intro he
    rw [Meaning.const?_along, Meaning.const?_along, h.const? he]

end Twin

namespace Twins

theorem mono (h : Twins exact P ms ms') (hQ : ∀ a b, Q a b → P a b) : Twins exact Q ms ms' :=
  ⟨fun a b hab => h.all a b (hQ a b hab), h.consts⟩

theorem nil : Twins exact P [] [] := ⟨fun _ _ _ => rfl, fun _ => rfl⟩

theorem singleton (h : Twin exact P m m') : Twins exact P [m] [m'] := by
  constructor
  · intro a b hab
    simp [h.holds a b hab]
  · intro he
    simp [h.const? he]

theorem append {ns : List (Meaning α)} {ns' : List (Meaning β)} (h : Twins exact P ms ms')
    (k : Twins exact P ns ns') : Twins exact P (ms ++ ns) (ms' ++ ns') := by
  constructor
  · intro a b hab
    rw [List.all_append, List.all_append, h.all a b hab, k.all a b hab]
  · intro he
    rw [List.map_append, List.map_append, h.consts he, k.consts he]

theorem self {R : α → α → Prop} (h : ∀ a b, R a b → a = b) (ms : List (Meaning α)) :
    Twins exact R ms ms := by
  constructor
  · intro a b hab
    rw [h a b hab]
  · intro _
    rfl

theorem conj (h : Twins exact P ms ms') : Twin exact P (.conj ms) (.conj ms') := by
  constructor
  · intro a b hab
    rw [Meaning.holds_conj, Meaning.holds_conj, h.all a b hab]
  · intro he
    exact Meaning.const?_joined_congr (h.consts he) true

end Twins

theorem forall₂_twins (h : List.Forall₂ (Twin exact P) ms ms') :
    (∀ a b, P a b → ms.map (·.holds a) = ms'.map (·.holds b)) ∧
      (exact → ms.map (·.const?) = ms'.map (·.const?)) := by
  induction h with
  | nil => exact ⟨fun _ _ _ => rfl, fun _ => rfl⟩
  | cons hm _ ih =>
    constructor
    · intro a b hab
      rw [List.map_cons, List.map_cons, hm.holds a b hab, ih.1 a b hab]
    · intro he
      rw [List.map_cons, List.map_cons, hm.const? he, ih.2 he]

theorem Twins.of_forall₂ (h : List.Forall₂ (Twin exact P) ms ms') : Twins exact P ms ms' := by
  constructor
  · intro a b hab
    simpa [Function.comp_def] using congrArg (·.all id) ((forall₂_twins h).1 a b hab)
  · exact (forall₂_twins h).2

namespace Twin

theorem disj (h : List.Forall₂ (Twin exact P) ms ms') : Twin exact P (.disj ms) (.disj ms') := by
  constructor
  · intro a b hab
    have any := congrArg (·.any id) ((forall₂_twins h).1 a b hab)
    simpa [Function.comp_def] using any
  · intro he
    exact Meaning.const?_joined_congr ((forall₂_twins h).2 he) false

theorem one (h : List.Forall₂ (Twin exact P) ms ms') : Twin exact P (.one ms) (.one ms') := by
  constructor
  · intro a b hab
    have count := congrArg (·.countP id) ((forall₂_twins h).1 a b hab)
    rw [List.countP_map, List.countP_map] at count
    rw [Meaning.holds_one, Meaning.holds_one]
    exact congrArg (· == 1) count
  · intro he
    exact Meaning.const?_one_congr ((forall₂_twins h).2 he)

/-- The second of two alternatives is asked about values of which the first does not hold. -/
theorem either (hc : Twin exact P c c')
    (hm : Twin exact (fun a b => P a b ∧ c.holds a = false) m m') :
    Twin exact P (.disj [c, m]) (.disj [c', m']) := by
  constructor
  · intro a b hab
    have first := hc.holds a b hab
    simp only [Meaning.holds_disj, List.any_cons, List.any_nil, Bool.or_false, ← first]
    cases h : c.holds a with
    | true => rfl
    | false => rw [hm.holds a b ⟨hab, h⟩]
  · intro he
    refine Meaning.const?_joined_congr ?_ false
    simp [hc.const? he, hm.const? he]

end Twin

end Conditions

/-! ## Readings -/

abbrev Domain := Bucket → Option Json → Option Json → Prop

namespace Reading

theorem all_pushAll (s : Reading) (b : Bucket) (ms : List (Meaning (Option Json))) (c : Bucket)
    (i : Option Json) : ((s.pushAll b ms).conditions c).all (·.holds i) =
      ((s.conditions c).all (·.holds i) && (c != b || ms.all (·.holds i))) := by
  induction ms generalizing s with
  | nil => simp [pushAll]
  | cons m ms ih =>
    have step : ((s.push b m).conditions c).all (·.holds i) =
        ((s.conditions c).all (·.holds i) && (c != b || m.holds i)) := by
      rw [push]
      split
      · next hc => simp [Meaning.holds_of_const? hc]
      · by_cases hcb : c = b
        · simp [hcb]
        · simp [hcb]
    have rest := ih (s.push b m)
    rw [step, Bool.and_assoc] at rest
    rw [List.all_cons, Bool.or_and_distrib_left]
    exact rest

theorem consts_pushAll (s : Reading) (b : Bucket) (ms : List (Meaning (Option Json)))
    (c : Bucket) : ((s.pushAll b ms).conditions c).map (·.const?) =
      (s.conditions c).map (·.const?) ++
        if c = b then (ms.map (·.const?)).filter (· != some true) else [] := by
  induction ms generalizing s with
  | nil => simp [pushAll]
  | cons m ms ih =>
    have rest := ih (s.push b m)
    refine rest.trans ?_
    rw [push]
    by_cases hm : m.const? = some true
    · simp [hm]
    · by_cases hcb : c = b
      · simp [hm, hcb]
      · simp [hm, hcb]

/-- Two readings declare the same types and collect conditions that judge alike. -/
structure Twin (exact : Prop) (D : Domain) (s s' : Reading) : Prop where
  types : s.types = s'.types
  conditions : ∀ b, Twins exact (D b) (s.conditions b) (s'.conditions b)

namespace Twin

variable {exact : Prop} {D : Domain} {s s' : Reading}

theorem mono {D' : Domain} (h : Twin exact D s s') (hD : ∀ b i j, D' b i j → D b i j) :
    Twin exact D' s s' :=
  ⟨h.types, fun b => (h.conditions b).mono (hD b)⟩

theorem bare {types : Option TypeSet} : Twin exact D { types } { types } := ⟨rfl, fun _ => .nil⟩

theorem fork (h : Twin exact D s s') (D' : Domain) : Twin exact D' s.fork s'.fork := by
  rw [Reading.fork, Reading.fork, h.types]
  exact bare

theorem declare (h : Twin exact D s s') (types : TypeSet) :
    Twin exact D (s.declare types) (s'.declare types) := by
  refine ⟨?_, h.conditions⟩
  rw [Reading.declare, Reading.declare, h.types]

theorem pushAll (h : Twin exact D s s') {b : Bucket} {ms ms' : List (Meaning (Option Json))}
    (hms : Twins exact (D b) ms ms') : Twin exact D (s.pushAll b ms) (s'.pushAll b ms') := by
  refine ⟨?_, fun c => ⟨fun i j hij => ?_, fun he => ?_⟩⟩
  · have kept (s : Reading) (ms : List (Meaning (Option Json))) :
        (s.pushAll b ms).types = s.types := by
      induction ms generalizing s with
      | nil => rfl
      | cons m ms ih =>
        refine (ih (s.push b m)).trans ?_
        rw [push]
        split <;> rfl
    rw [kept, kept, h.types]
  · rw [all_pushAll, all_pushAll, (h.conditions c).all i j hij]
    by_cases hc : c = b
    · subst hc
      rw [hms.all i j hij]
    · rw [bne_iff_ne.mpr hc, Bool.true_or, Bool.true_or]
  · rw [consts_pushAll, consts_pushAll, (h.conditions c).consts he, hms.consts he]

theorem push (h : Twin exact D s s') {b : Bucket} {m m' : Meaning (Option Json)}
    (hm : SchemaLogic.Twin exact (D b) m m') : Twin exact D (s.push b m) (s'.push b m') :=
  h.pushAll (.singleton hm)

end Twin

end Reading

end SchemaLogic
