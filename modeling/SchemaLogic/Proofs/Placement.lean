import SchemaLogic.Proofs.Folding
import SchemaLogic.Proofs.Lexical
import SchemaLogic.Schema.Workspace

/-! # Where conditions may stand

A condition is placed if it reads visible loop variables only, names declarations of the right kind,
and binds loop variables later than all visible ones. -/
namespace SchemaLogic

/-- What conditions refer to: declarations, and how many loop variables were handed out. -/
structure Stock where
  pool : Declarations
  slots : Nat

def Workspace.stock (w : Workspace) : Stock := ⟨w.pool.declarations, w.slots⟩

instance : Coe Workspace Stock := ⟨Workspace.stock⟩

namespace Stock

structure Grows (w u : Stock) : Prop where
  pool : w.pool <+: u.pool
  slots : w.slots ≤ u.slots

theorem Grows.refl (w : Stock) : w.Grows w := ⟨List.prefix_rfl, Nat.le_refl _⟩

theorem Grows.trans {w u v : Stock} (h : w.Grows u) (k : u.Grows v) : w.Grows v :=
  ⟨h.pool.trans k.pool, Nat.le_trans h.slots k.slots⟩

end Stock

theorem Declarations.get_extended {pool more : Declarations} (h : pool <+: more) {n : Name}
    {d : Declaration} (hn : pool[n]? = some d) : more[n]? = some d := by
  obtain ⟨rest, rfl⟩ := h
  rw [List.getElem?_append_left (List.getElem?_eq_some_iff.mp hn).1, hn]

namespace Expr

/-- The declaration that a condition names has the kind that the condition needs. -/
def Named (pool : Declarations) : Expr → Prop
  | .matchesPattern _ n => ∃ p, pool[n]? = some (.pattern p)
  | .inTable _ n => ∃ items, pool[n]? = some (.literal (.array items))
  | .unique _ (some n) => pool[n]? = some .deepEqual
  | .call n _ => ∃ r, pool[n]? = some (.routine r)
  | _ => True

theorem Named.extended {pool more : Declarations} (hp : pool <+: more) {e : Expr}
    (h : e.Named pool) : e.Named more := by
  cases e with
  | matchesPattern r n => exact h.imp fun _ => Declarations.get_extended hp
  | inTable r n => exact h.imp fun _ => Declarations.get_extended hp
  | unique r helper =>
    cases helper with
    | none => trivial
    | some n => exact Declarations.get_extended hp h
  | call n r => exact h.imp fun _ => Declarations.get_extended hp
  | _ => trivial

def InScope (visible : List Slot) (e : Expr) : Prop :=
  ∀ r, e.ref? = some r → ∀ s ∈ r.slots, s ∈ visible

/-- The loop variable that a condition binds, by itself or in a routine that it calls, comes after
all visible ones. Routines declared before `base` are not called. -/
structure Ordered (base : Nat) (w : Stock) (visible : List Slot) (e : Expr) : Prop where
  binder : ∀ s, e.binder? = some s → s.index < w.slots ∧ ∀ t ∈ visible, t.index < s.index
  callee : ∀ n r, e = .call n r → base ≤ n ∧
    ∀ f, w.pool[n]? = some (.routine f) → ∀ t ∈ visible, t.index < f.item.index

structure Placed (base : Nat) (w : Stock) (visible : List Slot) (e : Expr) : Prop where
  inScope : e.InScope visible
  named : e.Named w.pool
  ordered : e.Ordered base w visible

variable {base : Nat} {w u : Stock} {visible : List Slot} {e : Expr}

theorem transparent_placed : Transparent (Placed base w) := by
  constructor <;> intros
  case presence =>
    constructor <;> exact fun h => ⟨fun r hr => h.inScope r hr, trivial, by simp [binder?], by simp⟩
  all_goals exact ⟨by simp [InScope, ref?], trivial, by simp [binder?], by simp⟩

theorem placed_leaf (hr : ∀ r, e.ref? = some r → ∀ s ∈ r.slots, s ∈ visible)
    (hn : e.Named w.pool) (ho : e.operands = []) (hb : e.binder? = none)
    (hc : ∀ n r, e ≠ .call n r) : Everywhere (Placed base w) visible e :=
  .leaf ⟨hr, hn, by simp [hb], fun n r he => (hc n r he).elim⟩ ho

theorem normal_look {pool : Declarations} {r : ValueRef} {f : Instance → Bool}
    (h : e.look? pool = some (r, f)) : e.Normal := by
  refine .leaf ?_ (ref?_look h).2.1
  revert h
  fun_cases look? pool e <;> simp [Tidy]

theorem Placed.grow (hg : w.Grows u) (h : e.Placed base w visible) : e.Placed base u visible where
  inScope := h.inScope
  named := h.named.extended hg.pool
  ordered := by
    refine ⟨fun s hs => ?_, fun n r he => ?_⟩
    · obtain ⟨hl, ht⟩ := h.ordered.binder s hs
      exact ⟨Nat.lt_of_lt_of_le hl hg.slots, ht⟩
    · subst he
      obtain ⟨f, hf⟩ := h.named
      obtain ⟨hb, ht⟩ := h.ordered.callee n r rfl
      refine ⟨hb, fun f' hf' => ?_⟩
      rw [Declarations.get_extended hg.pool hf] at hf'
      exact ht f' (hf'.symm ▸ hf)

theorem everywhere_grow (hg : w.Grows u) (h : Everywhere (Placed base w) visible e) :
    Everywhere (Placed base u) visible e :=
  h.mono fun hp => hp.grow hg

/-- More loop variables are visible, and none of them comes after all those visible before. -/
structure Covers (visible more : List Slot) : Prop where
  subset : ∀ s ∈ visible, s ∈ more
  bounded : ∀ t ∈ more, ∃ s ∈ visible, t.index ≤ s.index

theorem Covers.scope {more : List Slot} (h : Covers visible more) (e : Expr) :
    Covers (e.scope visible) (e.scope more) := by
  constructor
  · intro s hs
    rcases List.mem_append.mp hs with hs | hs
    · exact List.mem_append_left _ hs
    · exact List.mem_append_right _ (h.subset s hs)
  · intro t ht
    rcases List.mem_append.mp ht with ht | ht
    · exact ⟨t, List.mem_append_left _ ht, Nat.le_refl _⟩
    · obtain ⟨s, hs, hle⟩ := h.bounded t ht
      exact ⟨s, List.mem_append_right _ hs, hle⟩

theorem everywhere_cover {more : List Slot} (hc : Covers visible more)
    (h : Everywhere (Placed base w) visible e) : Everywhere (Placed base w) more e := by
  refine h.transport (R := Covers) (fun hr _ => hr.scope _) (fun {u v e} hr hp => ?_) hc
  have later {i : Nat} (hu : ∀ s ∈ u, s.index < i) : ∀ t ∈ v, t.index < i := by
    intro t ht
    obtain ⟨s, hs, hle⟩ := hr.bounded t ht
    exact Nat.lt_of_le_of_lt hle (hu s hs)
  exact {
    inScope := fun r he s hs => hr.subset s (hp.inScope r he s hs)
    named := hp.named
    ordered := ⟨fun s hs => ⟨(hp.ordered.binder s hs).1, later (hp.ordered.binder s hs).2⟩,
      fun n r he => ⟨(hp.ordered.callee n r he).1, fun f hf =>
        later ((hp.ordered.callee n r he).2 f hf)⟩⟩ }

end Expr

/-- The bodies of routines declared from a place on are placed among the declarations before them,
and read nothing but the item of the routine. -/
def Stock.Placed (base : Nat) (w : Stock) : Prop :=
  ∀ n f, base ≤ n → w.pool[n]? = some (.routine f) → f.item.index < w.slots ∧
    Expr.Everywhere (Expr.Placed base ⟨w.pool.take n, w.slots⟩) [f.item] f.body

end SchemaLogic
