import Mathlib.Data.List.Perm.Subperm
import SchemaLogic.Proofs.Interference
import SchemaLogic.Proofs.Merging
import SchemaLogic.Proofs.MissingValue
import SchemaLogic.Proofs.ScopeMeaning

/-! # The verdict of a finished scope

A scope is filled by any run of pushes and declarations. Finished, it becomes a conjunction of
guards or a union of clauses, with constants folded away. Its verdict is read off the verdicts of
the conditions themselves: a value has to be of a declared type and to satisfy what was pushed for
its type and what was pushed for all values. -/
namespace SchemaLogic

/-- What a verdict depends on: the input and the row of slots, the routines declared before a place
of a pool, and the reference to the value in question. -/
structure Setting where
  input : Instance
  row : Slots
  pool : Declarations
  depth : Nat
  ref : ValueRef

namespace Setting

variable (x : Setting)

def run (e : Expr) : Verdict := e.eval x.input x.pool (Routine.below x.input x.pool x.depth)

def holds (e : Expr) : Bool := (x.run e x.row).1

def subject : Option Json := (x.ref.resolve x.input x.row).subject

/-- Neither the reference nor a condition reads a loop variable bound inside another condition. -/
def Undisturbed (cs : List Expr) : Prop := (Expr.present x.ref :: cs).Pairwise (Expr.Apart x.pool)

def Seen (cs : List Expr) (i : Nat) : Prop := ∃ e ∈ Expr.present x.ref :: cs, e.Reads x.pool i

/-- On every row that looks the same to the reference and to some conditions a verdict is the same,
and it changes loop variables of these conditions only. -/
structure Yields (cs : List Expr) (v : Verdict) (b : Bool) : Prop where
  verdict : ∀ row, SameAt (x.Seen cs) row x.row → (v row).1 = b
  size : ∀ row, (v row).2.size = row.size
  keeps : ∀ row i, (∀ c ∈ cs, ¬c.Writes x.pool i) →
    (v row).2.getD i .missing = row.getD i .missing

/-- Several conditions under a connective say what several meanings say of the value. -/
def Weighs (b : Bool) (cs es : List Expr) (ms : List (Meaning (Option Json))) : Prop :=
  x.Yields cs (x.run (.connective b es)) (quantified b (·.holds x.subject) ms)

variable {x} {b : Bool} {cs cs' es es' : List Expr} {ms ms' : List (Meaning (Option Json))}

theorem footprint (e : Expr) : Footprint (e.Reads x.pool) (e.Writes x.pool) (x.run e) :=
  Expr.eval_footprint (below_confined x.input x.pool x.depth) e (fun _ h => h) fun _ h => h

/-! ## Conditions that do not disturb each other -/

theorem Undisturbed.append (h : x.Undisturbed (cs ++ cs')) :
    x.Undisturbed cs ∧ x.Undisturbed cs' ∧ ∀ c ∈ cs, ∀ i, x.Seen cs' i → ¬c.Writes x.pool i := by
  obtain ⟨href, hall⟩ := List.pairwise_cons.mp h
  obtain ⟨hleft, hright, hcross⟩ := List.pairwise_append.mp hall
  refine ⟨List.pairwise_cons.mpr ⟨fun c hc => href c (List.mem_append_left _ hc), hleft⟩,
    List.pairwise_cons.mpr ⟨fun c hc => href c (List.mem_append_right _ hc), hright⟩, ?_⟩
  rintro c hc i ⟨e, he, hreads⟩
  rcases List.mem_cons.mp he with rfl | he
  · exact ((href c (List.mem_append_left _ hc)) i).2 hreads
  · exact (hcross c hc e he i).1 hreads

theorem Seen.mono {i : Nat} (h : x.Seen cs i) (hs : cs ⊆ cs') : x.Seen cs' i := by
  obtain ⟨e, he, hreads⟩ := h
  exact ⟨e, List.cons_subset_cons _ hs he, hreads⟩

theorem Yields.mono {v : Verdict} {c : Bool} (h : x.Yields cs v c) (hs : cs ⊆ cs') :
    x.Yields cs' v c where
  verdict row hr := h.verdict row ⟨hr.size, fun i hi => hr.slots i (hi.mono hs)⟩
  size := h.size
  keeps row i hi := h.keeps row i fun c hc => hi c (hs hc)

theorem yields_condition (c : Expr) : x.Yields [c] (x.run c) (x.holds c) where
  verdict row hr :=
    ((footprint c).depends _ (fun i hi => ⟨c, by simp, hi⟩) row x.row hr).1
  size := (footprint c).size
  keeps row i hi := (footprint c).keeps row i (hi c (by simp))

/-- Folding drops conditions that are not needed for the verdict. -/
theorem yields_joined {c : Bool} (h : x.Yields cs (x.run (.connective b es)) c) :
    x.Yields cs (x.run (.joined b es)) c := by
  have folded (row : Slots) : (x.run (.joined b es) row).1 = (x.run (.connective b es) row).1 ∧
      ((x.run (.joined b es) row).2 = (x.run (.connective b es) row).2 ∨
        (x.run (.joined b es) row).2 = row) := by
    simp only [run]
    rcases Expr.eval_joined x.input x.pool _ b es row with he | ⟨he, hd⟩
    · rw [he]
      exact ⟨rfl, .inl rfl⟩
    · rw [he, hd]
      exact ⟨rfl, .inr rfl⟩
  refine ⟨fun row hr => (folded row).1.trans (h.verdict row hr), fun row => ?_, fun row i hi => ?_⟩
  · rcases (folded row).2 with hrow | hrow <;> rw [hrow]
    exact h.size row
  · rcases (folded row).2 with hrow | hrow <;> rw [hrow]
    exact h.keeps row i hi

/-! ## Lists of conditions -/

theorem quantified_append {α : Type} (b : Bool) (p : α → Bool) (l l' : List α) :
    quantified b p (l ++ l') = if quantified b p l = b then quantified b p l' else !b := by
  cases b <;> simp only [quantified, List.all_append, List.any_append] <;> grind

theorem weighs_nil (b : Bool) : x.Weighs b [] [] [] := by
  cases b <;> exact ⟨fun _ _ => rfl, fun _ => rfl, fun _ _ _ => rfl⟩

theorem Weighs.append (h : x.Weighs b cs es ms) (k : x.Weighs b cs' es' ms')
    (apart : ∀ c ∈ cs, ∀ i, x.Seen cs' i → ¬c.Writes x.pool i) :
    x.Weighs b (cs ++ cs') (es ++ es') (ms ++ ms') := by
  have hrun : x.run (.connective b (es ++ es')) = Verdict.andThen (x.run (.connective b es))
      fun c => if c = b then x.run (.connective b es') else Verdict.give !b :=
    Expr.eval_connective_append x.input x.pool _ b es es'
  have hkeeps (row : Slots) (i : Nat) (hi : ∀ c ∈ cs ++ cs', ¬c.Writes x.pool i) :=
    h.keeps row i fun c hc => hi c (List.mem_append_left _ hc)
  refine ⟨fun row hr => ?_, fun row => ?_, fun row i hi => ?_⟩
  · have hfirst := h.verdict row
      ⟨hr.size, fun i hi => hr.slots i (hi.mono (List.subset_append_left _ _))⟩
    rw [hrun, Verdict.andThen, hfirst, quantified_append]
    split
    · refine k.verdict _ ⟨(h.size row).trans hr.size, fun i hi => ?_⟩
      rw [h.keeps row i fun c hc => apart c hc i hi]
      exact hr.slots i (hi.mono (List.subset_append_right _ _))
    · rfl
  · rw [hrun, Verdict.andThen]
    split
    · exact (k.size _).trans (h.size row)
    · exact h.size row
  · rw [hrun, Verdict.andThen]
    split
    · exact (k.keeps _ i fun c hc => hi c (List.mem_append_right _ hc)).trans (hkeeps row i hi)
    · exact hkeeps row i hi

theorem weighs_single {e : Expr} {m : Meaning (Option Json)}
    (h : x.Yields cs (x.run e) (m.holds x.subject)) : x.Weighs b cs [e] [m] := by
  have hrun : x.run (.connective b [e]) = x.run e :=
    Expr.eval_connective_single x.input x.pool _ e b
  have hsingle : quantified b (·.holds x.subject) [m] = m.holds x.subject := by
    cases b <;> simp [quantified]
  rw [Weighs, hrun, hsingle]
  exact h

theorem Weighs.joined (h : x.Weighs b cs es ms) :
    x.Yields cs (x.run (.joined b es)) ((Meaning.joined b ms).holds x.subject) := by
  rw [Meaning.holds_joined]
  exact yields_joined h

theorem Weighs.conj (h : x.Weighs true cs es ms) :
    x.Yields cs (x.run (.conj es)) ((Meaning.conj ms).holds x.subject) := by
  rw [Expr.conj_eq_joined]
  exact h.joined

theorem Weighs.disj (h : x.Weighs false cs es ms) :
    x.Yields cs (x.run (.disj es)) ((Meaning.disj ms).holds x.subject) := by
  rw [Expr.disj_eq_joined]
  exact h.joined

def stand (x : Setting) (e : Expr) : Meaning (Option Json) := .known e.const? fun _ => x.holds e

theorem holds_stand (e : Expr) (i : Option Json) : (x.stand e).holds i = x.holds e := by
  rw [stand, Meaning.holds_known]
  cases hc : e.const? with
  | none => rfl
  | some c =>
    rw [Expr.eq_const_of_const? hc]
    rfl

theorem weighs_conditions (h : x.Undisturbed cs) (b : Bool) :
    x.Weighs b cs cs (cs.map x.stand) := by
  induction cs with
  | nil => exact weighs_nil b
  | cons c cs ih =>
    have hboth : x.Undisturbed ([c] ++ cs) := h
    obtain ⟨-, hrest, hapart⟩ := hboth.append
    have hc : x.Weighs b [c] [c] [x.stand c] := by
      refine weighs_single ?_
      rw [holds_stand]
      exact yields_condition c
    exact hc.append (ih hrest) hapart

end Setting

/-! ## Guards and clauses -/

namespace Scope

variable {x : Setting} {o : Options} {s : Scope}

def typed (s : Scope) : List Expr := s.strings ++ (s.numbers ++ (s.arrays ++ s.objects))

def all (s : Scope) : List Expr := s.typed ++ s.always

/-- The scope with the verdicts on its conditions in their places. -/
def judged (x : Setting) (s : Scope) : Reading where
  types := s.types
  conditions b := (s.conditions b).map x.stand

/-- What is done to a scope before it is finished. -/
inductive Call where
  | push (bucket : Bucket) (condition : Expr)
  | declare (types : TypeSet)

def Call.run (s : Scope) : Call → Scope
  | .push bucket condition => s.push bucket condition
  | .declare types => s.declare types

def after (calls : List Call) : Scope := calls.foldl Call.run {}

end Scope

end SchemaLogic
