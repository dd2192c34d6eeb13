import SchemaLogic.Pattern.Engine
import SchemaLogic.Proofs.KeywordRefinement
import SchemaLogic.Proofs.SlotMachine

/-! # Schemas compile to what they mean

From any sound workspace and for any reference, compiling a schema fails with the error that its
meaning gives, or yields a condition that realises the meaning. -/
namespace SchemaLogic

/-- The meaning of a keyword does not depend on where its value is. -/
theorem Keyword.enrich_ref [Pattern.Engines] (k : Keyword) (enrich : Enrich) (n : Node)
    (r : ValueRef) (s : Reading) : k.enrich enrich { n with ref := r } s = k.enrich enrich n s := by
  cases k <;> rfl

section Compiling

variable [Pattern.Engines]

namespace Refines

variable {base : Nat} {extend : Extend} {enrich : Enrich} {w : Workspace}
variable {s : Scope} {reading : Reading}

theorem apply (n : Node) (h : ExtendRefines n.options base extend enrich)
    (hw : w.Sound n.options base) (hr : n.ref.Live w) (hs : s.Realises base w n.ref reading)
    (k : Keyword) :
    Refines n.options base w s.tally (k.apply extend n s) (k.enrich enrich n reading) Scope.tally
      fun u s reading => s.Realises base u n.ref reading := by
  cases k with
  | type => exact applyType n hw hs
  | enum => exact applyEnum n hw hs
  | const => exact applyConst n hw hs
  | minLength | minItems | minProperties => exact applyLeast n hw hs _ _
  | maxLength | maxItems | maxProperties => exact applyMost n hw hs _ _
  | pattern => exact applyPattern n hw hs
  | multipleOf => exact applyMultipleOf n hw hs
  | minimum | maximum | exclusiveMinimum | exclusiveMaximum => exact applyBound n hw hs _ _
  | uniqueItems => exact applyUniqueItems n hw hs
  | items => exact applyItems n h hw hr hs
  | prefixItems => exact applyPrefixItems n h hw hr hs
  | additionalItems => exact applyAdditionalItems n h hw hr hs
  | contains => exact applyContains n h hw hr hs
  | minContains | maxContains => exact applyContainsBound n hw hs _ _
  | propertyNames => exact applyPropertyNames n h hw hr hs
  | required => exact applyRequired n hw hs
  | properties => exact applyProperties n h hw hr hs
  | patternProperties => exact applyPatternProperties n h hw hr hs
  | additionalProperties => exact applyAdditionalProperties n h hw hr hs
  | dependencies | dependentRequired | dependentSchemas =>
    exact applyDependencyMap n h hw hr _ _ hs
  | anyOf =>
    refine lift fun schemas _ => step (branches n h hw hr hs schemas) fun u es ms hg hu hms => ?_
    exact deliver hu (hs.grow hg) (.disj hms) fun i =>
      Nat.add_le_add_right (Expr.binds_disj es i) _
  | oneOf =>
    refine lift fun schemas _ => step (branches n h hw hr hs schemas) fun u es ms hg hu hms => ?_
    exact deliver hu (hs.grow hg) (.one hms) fun i =>
      Nat.add_le_add_right (Expr.binds_one es i) _
  | allOf => exact lift fun schemas _ => merge n h hw hr hs schemas
  | not => exact applyNot n h hw hr hs
  | custom c => exact applyCustom n hw hs c

variable {o : Options} {table : Table} {members : Json.Members} {r : ValueRef}
variable (h : ExtendRefines o base extend enrich)
include h

theorem applyPass (pass : Pass) (rest : Json.Members) (hw : w.Sound o base) (hr : r.Live w)
    (hs : s.Realises base w r reading) :
    Refines o base w s.tally (applyPass extend o table members r pass rest s)
      (rest.foldlM (enrichMember enrich o table members pass) reading) Scope.tally
      fun u s reading => s.Realises base u r reading := by
  induction rest generalizing w s reading with
  | nil => exact done hw hs fun _ => Nat.le_refl _
  | cons member rest ih =>
    obtain ⟨name, value⟩ := member
    rw [SchemaLogic.applyPass, List.foldlM_cons, enrichMember]
    cases pass.get? name with
    | none => exact ih hw hr hs
    | some k =>
      have hk := apply ⟨o, table, members, value, r⟩ h hw hr hs k
      rw [Keyword.enrich_ref k enrich ⟨o, table, members, value, .input⟩ r] at hk
      exact bind hk fun u s' reading' hg hu hs' => ih hu (hr.grow hg) hs'

theorem applyPasses (passes : List Pass) (hw : w.Sound o base) (hr : r.Live w)
    (hs : s.Realises base w r reading) :
    Refines o base w s.tally (applyPasses extend o table members r passes s)
      (enrichPasses enrich o table members passes reading) Scope.tally
      fun u s reading => s.Realises base u r reading := by
  induction passes generalizing w s reading with
  | nil => exact done hw hs fun _ => Nat.le_refl _
  | cons pass rest ih =>
    refine bind (applyPass h pass members hw hr hs) fun u s' reading' hg hu hs' => ?_
    exact ih hu (hr.grow hg) hs'

end Refines

theorem extendAt_refines (o : Options) (table : Table) (base fuel : Nat) :
    ExtendRefines o base (extendAt o table fuel) (enrichAt o table fuel) := by
  -- By induction on the fuel: keywords only need that the schemas inside them compile to what they
  -- mean.
  induction fuel with
  | zero => exact fun w schema r s reading _ _ _ => .fail _
  | succ fuel ih =>
    intro w schema r s reading hw hr hs
    cases schema with
    | object members => exact .applyPasses ih table hw hr hs
    | bool b =>
      cases b
      · exact .deliver_leaf hw hs (.absent fun _ hs => hs) fun _ => rfl
      · exact .done hw hs fun _ => Nat.le_refl _
    | _ => exact .fail _

theorem conditions_refines (o : Options) (table : Table) {base fuel : Nat} {schema : Json}
    (hf : schema.depth < fuel) {w : Workspace} (hw : w.Sound o base) {r : ValueRef}
    (hr : r.Live w) :
    Refines o base w (fun _ => 0) (conditions (extendAt o table fuel) o schema r)
      (meaning o table schema) Expr.binds
      fun u e m => Realises base u r.slots r.subject m e := by
  rw [← interpret_fuel o table hf]
  exact .conditions (extendAt_refines o table base fuel) hw hr schema

/-! ## Compiled predicates -/

theorem Workspace.sound_empty (o : Options) : Workspace.Sound o 0 {} where
  base_le := Nat.le_refl 0
  patterns n p h := by cases h
  placed n f _ h := by cases h
  folded n f _ h := by cases h
  coherent := Pool.coherent_empty

def Predicate.stock (p : Predicate) : Stock := ⟨p.pool, p.slots⟩

variable {schema : Json} {table : Table} {o : Options}

theorem compileAt_refines (schema : Json) (table : Table) (o : Options) :
    Refines o 0 {} (fun _ => 0) (compileAt o table schema .input) (meaning o table schema)
      Expr.binds fun u e m => Realises 0 u [] ValueRef.input.subject m e :=
  conditions_refines o table (Nat.lt_succ_self _) (Workspace.sound_empty o) (r := .input)
    (fun _ hs => nomatch hs)

theorem compile_error_iff (e : CompileError) :
    compile schema table o = .error e ↔ meaning o table schema = .error e := by
  rcases (compileAt_refines schema table o).cases with ⟨a, u, m, hr, hd, -⟩ | ⟨cause, hr, hd⟩
  · simp [compile, hr, hd]
  · simp [compile, hr, hd]

/-- What compilation guarantees of the predicate that it gives. -/
structure Predicate.Compiled (p : Predicate) (o : Options) (m : Meaning (Option Json)) : Prop where
  sound : p.stock.Sound o 0
  owns : p.stock.Owns p.root.binds
  realises : Realises 0 p.stock [] ValueRef.input.subject m p.root

theorem compile_ok {p : Predicate} (h : compile schema table o = .ok p) :
    ∃ m, meaning o table schema = .ok m ∧ p.Compiled o m := by
  rcases (compileAt_refines schema table o).cases with ⟨a, u, m, hr, hd, ha, hm⟩ | ⟨e, hr, hd⟩
  · simp only [compile, hr] at h
    cases h
    refine ⟨m, hd, ha.sound.toSound, ?_, hm⟩
    exact (ha.owns (fun _ => 0) fun i => Nat.zero_le _)
  · simp only [compile, hr] at h
    cases h

theorem compile_of_meaning {m : Meaning (Option Json)}
    (h : meaning o table schema = .ok m) : ∃ p, compile schema table o = .ok p := by
  cases hc : compile schema table o with
  | error e =>
    rw [compile_error_iff, h] at hc
    cases hc
  | ok p => exact ⟨p, rfl⟩

namespace Predicate

/-- The verdict of evaluation in a row of slots that holds anything at the start. -/
def evaluateFrom (p : Predicate) (row : Slots) (json : Option Json) : Bool :=
  let input := Instance.ofOption json
  (p.root.eval input p.pool (Routine.below input p.pool p.pool.length) row).1

def evaluateLexically (p : Predicate) (json : Option Json) : Bool :=
  p.root.truth p.pool (.ofOption json) fun _ => .missing

variable {p : Predicate} {m : Meaning (Option Json)}

theorem Compiled.evaluateFrom_eq (h : p.Compiled o m) {row : Slots} (hrow : p.slots ≤ row.size)
    (json : Option Json) : p.evaluateFrom row json = p.evaluateLexically json := by
  have ha : Agrees [] row fun _ => .missing := fun s hs => nomatch hs
  exact eval_eq_truth h.sound.placed List.prefix_rfl h.realises.placed (.ofOption json) hrow ha

/-- A predicate says of a value, present or missing, what the schema means. -/
theorem Compiled.evaluate (h : p.Compiled o m) (json : Option Json) :
    p.evaluate json = m.holds json := by
  calc p.evaluate json
    _ = p.evaluateLexically json := h.evaluateFrom_eq (by simp) json
    _ = m.holds (ValueRef.input.subject (.ofOption json) fun _ => .missing) :=
      h.realises.means p.pool List.prefix_rfl _ _
    _ = m.holds json := by rw [ValueRef.subject, ValueRef.value, Instance.subject_ofOption]

end Predicate

/-- The one row of slots, which loops and routines overwrite and nobody restores, acts as immutable
environments do, whatever it holds at the start. -/
theorem compile_evaluates_lexically {p : Predicate} (h : compile schema table o = .ok p)
    (json : Option Json) :
    p.evaluate json = p.evaluateLexically json ∧
      ∀ row : Slots, p.slots ≤ row.size → p.evaluateFrom row json = p.evaluateLexically json := by
  obtain ⟨m, -, hm⟩ := compile_ok h
  have from_row (row : Slots) (hrow : p.slots ≤ row.size) :=
    hm.evaluateFrom_eq hrow json
  constructor
  · exact from_row (Array.replicate p.slots .missing) (by simp)
  · exact from_row

end Compiling

/-- A loop over keys around a loop over items that calls a routine, on a value for which every loop
ends early and is entered again, in a row that starts with other values in it. -/
theorem nested_loops_evaluate_lexically :
    let schema : Json := .object [("additionalProperties", .object [("items", .object [
        ("contains", .object [("items", .object [("type", .string "null")])]),
        ("maxContains", .number (.natural 1))])])]
    let value : Json := .object [
      ("a", .array [.array [.array [.null], .array [.bool true]], .array [.array []]]),
      ("b", .array [.array [.array [.null], .array [.null]], .array []])]
    ∃ p, compile schema .draft2020 {} = .ok p ∧ p.slots = 4 ∧
      p.evaluateLexically (some value) = false ∧
      p.evaluate (some value) = p.evaluateLexically (some value) ∧
      p.evaluateFrom (Array.replicate 4 (.value (.array [.null]))) (some value) =
        p.evaluateLexically (some value) := by
  intro schema value
  have h : compile schema .draft2020 {} = .ok _ := rfl
  have hl := compile_evaluates_lexically h (some value)
  exact ⟨_, h, rfl, by decide, hl.1, hl.2 _ (by decide)⟩

end SchemaLogic
