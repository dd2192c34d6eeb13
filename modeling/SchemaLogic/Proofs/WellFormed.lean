import Mathlib.Data.List.Nodup
import SchemaLogic.Proofs.CheckedEvaluation
import SchemaLogic.Proofs.Compilation

/-! # Well-formed predicates

Every predicate that compilation gives is well-formed, and the evaluation of such a predicate
passes all checks on slots and declarations. -/
namespace SchemaLogic

/-- What a condition reads is bound around it, the loop variables that it mentions exist, and the
declarations that it names are of the right kind. -/
structure Expr.WellPlaced (pool : Declarations) (slots : Nat) (visible : List Slot) (e : Expr) :
    Prop where
  inScope : e.InScope visible
  below : ∀ s ∈ e.mentioned, s.index < slots
  named : e.Named pool

namespace Predicate

def bound (p : Predicate) : List Nat := p.root.bound ++ p.pool.flatMap Declaration.bound

structure WellFormed (p : Predicate) : Prop where
  root : Expr.Everywhere (Expr.WellPlaced p.pool p.slots) [] p.root
  /-- A body reads nothing bound outside it and names declarations before its own only. -/
  routines : ∀ (n : Name) f, p.pool[n]? = some (.routine f) → f.item.index < p.slots ∧
    Expr.Everywhere (Expr.WellPlaced (p.pool.take n) p.slots) [f.item] f.body
  distinct : p.bound.Nodup

end Predicate

theorem Expr.wellPlaced_of_placed {base : Nat} {w : Stock} {visible : List Slot} {e : Expr}
    (hv : ∀ s ∈ visible, s.index < w.slots) (h : Everywhere (Placed base w) visible e) :
    Everywhere (WellPlaced w.pool w.slots) visible e := by
  have binds {u : List Slot} {e : Expr} (hu : ∀ s ∈ u, s.index < w.slots)
      (hp : e.Placed base w u) : ∀ s ∈ e.scope u, s.index < w.slots := by
    intro s hs
    rcases List.mem_append.mp hs with hs | hs
    · exact (hp.ordered.binder s (by simpa using hs)).1
    · exact hu s hs
  refine h.transport (R := fun u v => u = v ∧ ∀ s ∈ u, s.index < w.slots) ?_ ?_ ⟨rfl, hv⟩
  · rintro u v e ⟨rfl, hu⟩ hp
    exact ⟨rfl, binds hu hp⟩
  · rintro u v e ⟨rfl, hu⟩ hp
    refine ⟨hp.inScope, fun s hs => binds hu hp s ?_, hp.named⟩
    rcases List.mem_append.mp hs with hs | hs
    · cases hr : e.ref? with
      | none => simp [hr] at hs
      | some r => exact List.mem_append_right _ (hp.inScope r hr s (by simpa [hr] using hs))
    · exact List.mem_append_left _ hs

namespace Predicate

variable {p : Predicate}

theorem Compiled.wellFormed [Pattern.Engines] {o : Options} {m : Meaning (Option Json)}
    (h : p.Compiled o m) : p.WellFormed where
  root := Expr.wellPlaced_of_placed (by simp) h.realises.placed
  routines n f hf := by
    obtain ⟨hl, hbody⟩ := h.sound.placed n f (Nat.zero_le n) hf
    exact ⟨hl, Expr.wellPlaced_of_placed (by simpa using hl) hbody⟩
  distinct := by
    rw [List.nodup_iff_count_le_one]
    intro i
    rw [bound, List.count_append]
    refine Nat.le_trans (h.owns i) ?_
    split <;> omega

/-- The evaluation of a well-formed predicate touches slots and declarations that exist, and finds
the kind of declaration that it needs. -/
theorem WellFormed.evaluate? (h : p.WellFormed) (json : Option Json) :
    p.evaluate? json = some (p.evaluate json) := by
  have touches {pool : Declarations} {u : List Slot} {e : Expr}
      (he : Expr.Everywhere (Expr.WellPlaced pool p.slots) u e) :
      Expr.Everywhere (fun _ => Expr.Touches pool p.slots) u e :=
    he.mono fun hp => ⟨hp.named, hp.below⟩
  have calls : Expr.CallsCheck p.pool p.slots
      (Routine.below? (.ofOption json) p.pool p.pool.length)
      (Routine.below (.ofOption json) p.pool p.pool.length) := by
    intro n f hf i
    refine Routine.below?_checks (fun n f hf => ?_) _ n _ (List.getElem?_eq_some_iff.mp hf).1 hf i
    exact (h.routines n f hf).imp id touches
  have hr := Expr.eval?_checks (.ofOption json) List.prefix_rfl calls (touches h.root)
  obtain ⟨he, -⟩ := hr (Array.replicate p.slots .missing) (by simp)
  rw [Predicate.evaluate?, he]
  rfl

end Predicate

/-- Compilation gives well-formed predicates, whose evaluation passes all checks, on values and on
a missing value. -/
theorem compile_wellFormed [Pattern.Engines] {schema : Json} {table : Table} {o : Options}
    {p : Predicate} (h : compile schema table o = .ok p) :
    p.WellFormed ∧ ∀ json : Option Json, p.evaluate? json = some (p.evaluate json) := by
  obtain ⟨m, -, hm⟩ := compile_ok h
  exact ⟨hm.wellFormed, hm.wellFormed.evaluate?⟩

/-- A loop over keys around two routines, one of which calls the other, with a pattern and the
comparison of items. -/
theorem nested_contains_wellFormed :
    let schema : Json := .object [("additionalProperties", .object [
        ("items", .object [("contains", .object [("pattern", .string "a")]),
          ("maxContains", .number (.natural 2))]),
        ("prefixItems", .array [.bool true])]), ("uniqueItems", .bool true)]
    ∃ p, compile schema .draft2020 {} = .ok p ∧ p.pool.length = 4 ∧ p.slots = 3 ∧ p.WellFormed ∧
      ∀ json : Option Json, p.evaluate? json = some (p.evaluate json) := by
  intro schema
  have h : compile schema .draft2020 {} = .ok _ := rfl
  exact ⟨_, h, rfl, rfl, compile_wellFormed h⟩

end SchemaLogic
