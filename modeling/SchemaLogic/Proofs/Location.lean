import SchemaLogic.Proofs.Compilation

/-! # Schemas compile alike in every place

What a schema compiles to depends on the declarations made before and on the reference to the
value. What the result says does not: of any value it says what the schema, compiled by itself,
says of it. -/
namespace SchemaLogic

section Places

variable [Pattern.Engines]

/-- The workspaces that the primitives of the compiler lead to. Routines are arbitrary here. -/
inductive Reachable (o : Options) : Workspace → Prop where
  | start : Reachable o {}
  | newSlot {w u kind slot} : Reachable o w → Compile.newSlot kind w = .ok (slot, u) →
      Reachable o u
  | addLiteral {w u json name} : Reachable o w → Compile.addLiteral json w = .ok (name, u) →
      Reachable o u
  | addPattern {w u source name} : Reachable o w →
      Compile.addPattern o.unicodeAwareRegex source w = .ok (name, u) → Reachable o u
  | addRoutine {w u routine name} : Reachable o w → Compile.addRoutine routine w = .ok (name, u) →
      Reachable o u
  | includeBuiltin {w u b name} : Reachable o w → Compile.includeBuiltin b w = .ok (name, u) →
      Reachable o u

namespace Reachable

variable {o : Options} {w : Workspace}

theorem pool_sound (h : Reachable o w) : w.pool.Sound o.unicodeAwareRegex := by
  induction h with
  | start => exact Pool.sound_empty _
  | newSlot _ hr ih =>
    cases hr
    exact ih
  | addLiteral _ hr ih =>
    cases hr
    exact ih.share rfl nofun
  | addPattern _ hr ih =>
    unfold Compile.addPattern at hr
    split at hr
    · next ha =>
      cases hr
      exact ih.addPattern ha
    · cases hr
  | addRoutine _ hr ih =>
    cases hr
    exact ih.declare (d := .routine _) nofun nofun
  | includeBuiltin _ hr ih =>
    cases hr
    exact ih.share rfl nofun

theorem sound (h : Reachable o w) : w.Sound o w.pool.declarations.length where
  base_le := Nat.le_refl _
  patterns := h.pool_sound.patterns
  placed _ _ hb hn := absurd (List.getElem?_eq_some_iff.mp hn).1 (Nat.not_lt.mpr hb)
  folded _ _ hb hn := absurd (List.getElem?_eq_some_iff.mp hn).1 (Nat.not_lt.mpr hb)
  coherent := h.pool_sound.coherent

end Reachable

/-- The verdict on what a reference leads to: keys count as strings. -/
theorem Predicate.Compiled.evaluate_subject {o : Options} {p : Predicate}
    {m : Meaning (Option Json)} (h : p.Compiled o m) (i : Instance) :
    m.holds i.subject = match i with
      | .missing => p.evaluate none
      | .value json => p.isValid json
      | .key k => p.isValid (.string k.text) := by
  cases i <;> exact (h.evaluate _).symm

/-- Compiling a schema for a reference fails as compiling it by itself does, and otherwise says of
whatever the reference resolves to what the predicate of the schema says of that. -/
theorem conditions_location_transparent (table : Table) (o : Options) (schema : Json)
    {w : Workspace} (hw : Reachable o w) {r : ValueRef} (hr : r.Live w) {fuel : Nat}
    (hf : schema.depth < fuel) :
    (∀ cause, conditions (extendAt o table fuel) o schema r w = .error cause ↔
      compile schema table o = .error cause) ∧
    ∀ e u p, conditions (extendAt o table fuel) o schema r w = .ok (e, u) →
      compile schema table o = .ok p → ∀ pool : Declarations, u.pool.declarations <+: pool →
      ∀ (input : Instance) (row : Slots), u.slots ≤ row.size →
        (e.eval input pool (Routine.below input pool pool.length) row).1 =
          match r.resolve input row with
          | .missing => p.evaluate none
          | .value json => p.isValid json
          | .key k => p.isValid (.string k.text) := by
  have hc := conditions_refines o table hf hw.sound hr
  constructor
  · intro cause
    rw [compile_error_iff]
    rcases hc.cases with ⟨e, u, m, hrun, hm, -⟩ | ⟨e, hrun, hm⟩
    · simp [hrun, hm]
    · simp [hrun, hm]
  · intro e u p hrun hp pool hpool input row hrow
    obtain ⟨m, hm, hcomp⟩ := compile_ok hp
    rcases hc.cases with ⟨e', u', m', hrun', hm', ha, hreal⟩ | ⟨cause, hrun', -⟩
    · obtain ⟨rfl, rfl⟩ : e = e' ∧ u = u' := by simpa [hrun] using hrun'
      obtain rfl : m = m' := by simpa [hm] using hm'
      have hagree : Agrees r.slots row fun i => row.getD i .missing := fun _ _ => rfl
      rw [eval_eq_truth ha.sound.placed hpool hreal.placed input hrow hagree,
        hreal.means pool hpool, ← hcomp.evaluate_subject, ValueRef.resolve_eq_value]
      rfl
    · rw [hrun] at hrun'
      cases hrun'

end Places

/-- A schema that takes a routine, compiled after another declaration for the member of an object
under a key. -/
theorem tuple_transparent_under_key :
    let schema : Json := .object [("items", .object [("type", .string "string")]),
      ("prefixItems", .array [.bool true])]
    let w : Workspace := ⟨⟨[.deepEqual], [], [], [(.deepEqual, 0)]⟩, 1⟩
    let r : ValueRef := .member .input ⟨.key, 0⟩
    let input : Instance := .value (.object [("k", .array [.null, .string "a"])])
    Reachable {} w ∧ r.Live w ∧ schema.depth < 3 ∧
      ∃ e u p, conditions (extendAt {} .draft2020 3) {} schema r w = .ok (e, u) ∧
        compile schema .draft2020 {} = .ok p ∧
        (e.eval input u.pool.declarations
          (Routine.below input u.pool.declarations u.pool.declarations.length)
          #[.key (.name "k"), .missing]).1 = p.isValid (.array [.null, .string "a"]) := by
  intro schema w r input
  have hs : Compile.newSlot .key {} = .ok (⟨.key, 0⟩, ⟨{}, 1⟩) := rfl
  have he : Compile.includeBuiltin .deepEqual ⟨{}, 1⟩ = .ok (0, w) := rfl
  have hw : Reachable {} w := .includeBuiltin (.newSlot .start hs) he
  have hr : r.Live w := by simp [r, w, ValueRef.Live, ValueRef.slots]
  have hd : schema.depth < 3 := by decide
  refine ⟨hw, hr, hd, _, _, _, rfl, rfl, ?_⟩
  exact (conditions_location_transparent .draft2020 {} schema hw hr hd).2 _ _ _ rfl rfl _
    List.prefix_rfl input #[.key (.name "k"), .missing] (by decide)

end SchemaLogic
