import SchemaLogic.Proofs.Placement

/-! # One row of slots for all loops

Loops overwrite their slot and restore nothing. A placed condition is not disturbed by that: what
runs inside it writes only slots after those that it reads. -/
namespace SchemaLogic

/-- The row and the environment give visible loop variables the same values. -/
def Agrees (visible : List Slot) (row : Slots) (env : Env) : Prop :=
  ∀ s ∈ visible, row.getD s.index .missing = env s.index

/-- Slots up to the visible ones are as before. -/
structure Keeps (visible : List Slot) (row after : Slots) : Prop where
  size : after.size = row.size
  below : ∀ s ∈ visible, ∀ j ≤ s.index, after.getD j .missing = row.getD j .missing

theorem Keeps.refl (visible : List Slot) (row : Slots) : Keeps visible row row :=
  ⟨rfl, fun _ _ _ _ => rfl⟩

theorem Keeps.trans {visible : List Slot} {row mid after : Slots} (h : Keeps visible row mid)
    (k : Keeps visible mid after) : Keeps visible row after :=
  ⟨k.size.trans h.size, fun s hs j hj => (k.below s hs j hj).trans (h.below s hs j hj)⟩

theorem Keeps.agrees {visible : List Slot} {row after : Slots} {env : Env}
    (h : Keeps visible row after) (ha : Agrees visible row env) : Agrees visible after env :=
  fun s hs => (h.below s hs _ (Nat.le_refl _)).trans (ha s hs)

/-- A verdict gives a value that depends on visible loop variables only, and keeps them. -/
def Tracks (limit : Nat) (visible : List Slot) (v : Verdict) (f : Env → Bool) : Prop :=
  ∀ row env, limit ≤ row.size → Agrees visible row env →
    (v row).1 = f env ∧ Keeps visible row (v row).2

section Row

variable {limit : Nat} {visible : List Slot} {slot : Slot}

theorem getD_set (row : Slots) (i j : Nat) (x : Instance) (h : i < row.size) :
    (row.setIfInBounds i x).getD j .missing = if j = i then x else row.getD j .missing := by
  simp only [Array.getD_eq_getD_getElem?, Array.getElem?_setIfInBounds, h]
  split
  · next hji => simp [hji]
  · next hji => simp [Ne.symm hji]

theorem agrees_set {row : Slots} {env : Env} (hl : slot.index < row.size)
    (hv : ∀ t ∈ visible, t.index < slot.index) (h : Agrees visible row env) (x : Instance) :
    Agrees (slot :: visible) (row.setIfInBounds slot.index x)
      (Function.update env slot.index x) := by
  intro s hs
  rw [getD_set row _ _ x hl]
  rcases List.mem_cons.mp hs with rfl | hs
  · simp
  · have := hv s hs
    rw [if_neg (by omega), Function.update_of_ne (by omega), h s hs]

theorem keeps_set {row : Slots} (hl : slot.index < row.size)
    (hv : ∀ t ∈ visible, t.index < slot.index) (x : Instance) :
    Keeps visible row (row.setIfInBounds slot.index x) := by
  refine ⟨by simp, fun s hs j hj => ?_⟩
  have := hv s hs
  rw [getD_set row _ _ x hl, if_neg (by omega)]

theorem Keeps.weaken {row after : Slots} (h : Keeps (slot :: visible) row after) :
    Keeps visible row after :=
  ⟨h.size, fun s hs => h.below s (.tail _ hs)⟩

theorem round {body : Verdict} {f : Env → Bool} (hb : Tracks limit (slot :: visible) body f)
    (hl : slot.index < limit) (hv : ∀ t ∈ visible, t.index < slot.index) {row : Slots} {env : Env}
    (hs : limit ≤ row.size) (ha : Agrees visible row env) (x : Instance) :
    (body (row.setIfInBounds slot.index x)).1 = f (Function.update env slot.index x) ∧
      Keeps visible row (body (row.setIfInBounds slot.index x)).2 := by
  have hi : slot.index < row.size := by omega
  obtain ⟨he, hk⟩ := hb _ _ (by simpa using hs) (agrees_set hi hv ha x)
  exact ⟨he, (keeps_set hi hv x).trans hk.weaken⟩

end Row

section Loops

variable {limit : Nat} {visible : List Slot} {slot : Slot} {body : Verdict} {f : Env → Bool}

theorem tracks_every (hb : Tracks limit (slot :: visible) body f) (hl : slot.index < limit)
    (hv : ∀ t ∈ visible, t.index < slot.index) (elements : List Instance) :
    Tracks limit visible (Loop.every slot body elements)
      fun env => elements.all fun x => f (Function.update env slot.index x) := by
  induction elements with
  | nil => exact fun row env _ _ => ⟨rfl, Keeps.refl _ _⟩
  | cons x rest ih =>
    intro row env hs ha
    obtain ⟨he, hk⟩ := round hb hl hv hs ha x
    rw [Loop.every]
    split
    · next after hr =>
      rw [hr] at he hk
      obtain ⟨he', hk'⟩ := ih after env (by rw [hk.size]; exact hs) (hk.agrees ha)
      exact ⟨by simp [he', ← he], hk.trans hk'⟩
    · next after hr =>
      rw [hr] at he hk
      exact ⟨by simp [← he], hk⟩

theorem tracks_any (hb : Tracks limit (slot :: visible) body f) (hl : slot.index < limit)
    (hv : ∀ t ∈ visible, t.index < slot.index) (elements : List Instance) :
    Tracks limit visible (Loop.any slot body elements)
      fun env => elements.any fun x => f (Function.update env slot.index x) := by
  induction elements with
  | nil => exact fun row env _ _ => ⟨rfl, Keeps.refl _ _⟩
  | cons x rest ih =>
    intro row env hs ha
    obtain ⟨he, hk⟩ := round hb hl hv hs ha x
    rw [Loop.any]
    split
    · next after hr =>
      rw [hr] at he hk
      exact ⟨by simp [← he], hk⟩
    · next after hr =>
      rw [hr] at he hk
      obtain ⟨he', hk'⟩ := ih after env (by rw [hk.size]; exact hs) (hk.agrees ha)
      exact ⟨by simp [he', ← he], hk.trans hk'⟩

/-- The loop stops early only when the upper bound is exceeded, and then no later element can
mend that. -/
theorem tracks_count (hb : Tracks limit (slot :: visible) body f) (hl : slot.index < limit)
    (hv : ∀ t ∈ visible, t.index < slot.index) (least : Nat) (most : Option Nat)
    (elements : List Instance) (n : Nat) (hn : ∀ m ∈ most, n ≤ m) :
    Tracks limit visible (Loop.count slot body least most n elements) fun env =>
      Routine.within least most
        (n + elements.countP fun x => f (Function.update env slot.index x)) := by
  induction elements generalizing n with
  | nil =>
    intro row env _ _
    refine ⟨?_, Keeps.refl _ _⟩
    have hm : (most.all fun m => decide (n ≤ m)) = true := by
      cases most with
      | none => rfl
      | some m => simpa using hn m rfl
    simp only [List.countP_nil, Nat.add_zero]
    rw [Routine.within, hm, Bool.and_true, Loop.count]
  | cons x rest ih =>
    intro row env hs ha
    obtain ⟨he, hk⟩ := round hb hl hv hs ha x
    rw [Loop.count]
    split
    · next after hr =>
      rw [hr] at he hk
      split
      · next hm =>
        refine ⟨?_, hk⟩
        cases most with
        | none => simp at hm
        | some m =>
          have hm : m < n + 1 := by simpa using hm
          simp only [List.countP_cons, ← he, if_true, Routine.within, Option.all_some,
            Bool.false_eq, Bool.and_eq_false_iff, decide_eq_false_iff_not]
          exact Or.inr (by omega)
      · next hm =>
        have hn' : ∀ m ∈ most, n + 1 ≤ m := by
          intro m hmm
          cases hmm
          simpa using hm
        obtain ⟨he', hk'⟩ := ih (n + 1) hn' after env (by rw [hk.size]; exact hs) (hk.agrees ha)
        refine ⟨?_, hk.trans hk'⟩
        simp only [he', List.countP_cons, ← he, if_true, Nat.add_assoc, Nat.add_comm 1]
    · next after hr =>
      rw [hr] at he hk
      obtain ⟨he', hk'⟩ := ih n hn after env (by rw [hk.size]; exact hs) (hk.agrees ha)
      refine ⟨?_, hk.trans hk'⟩
      rw [he']
      simp [← he]

end Loops

section Operands

variable {input : Instance} {pool : Declarations} {call : Routines} {judge : Judge}
variable {limit : Nat} {visible : List Slot} {es : List Expr}

theorem tracks_all (h : ∀ e ∈ es, Tracks limit visible (e.eval input pool call)
      (e.holds input pool judge)) :
    Tracks limit visible (Expr.evalAll input pool call es)
      fun env => es.all (·.holds input pool judge env) := by
  induction es with
  | nil => exact fun row env _ _ => ⟨rfl, Keeps.refl _ _⟩
  | cons e es ih =>
    intro row env hs ha
    obtain ⟨he, hk⟩ := h e (by simp) row env hs ha
    rw [Expr.evalAll]
    split
    · next after hr =>
      rw [hr] at he hk
      obtain ⟨he', hk'⟩ := ih (fun e he => h e (.tail _ he)) after env
        (by rw [hk.size]; exact hs) (hk.agrees ha)
      exact ⟨by simp [he', ← he], hk.trans hk'⟩
    · next after hr =>
      rw [hr] at he hk
      exact ⟨by simp [← he], hk⟩

theorem tracks_anyOf (h : ∀ e ∈ es, Tracks limit visible (e.eval input pool call)
      (e.holds input pool judge)) :
    Tracks limit visible (Expr.evalAny input pool call es)
      fun env => es.any (·.holds input pool judge env) := by
  induction es with
  | nil => exact fun row env _ _ => ⟨rfl, Keeps.refl _ _⟩
  | cons e es ih =>
    intro row env hs ha
    obtain ⟨he, hk⟩ := h e (by simp) row env hs ha
    rw [Expr.evalAny]
    split
    · next after hr =>
      rw [hr] at he hk
      exact ⟨by simp [← he], hk⟩
    · next after hr =>
      rw [hr] at he hk
      obtain ⟨he', hk'⟩ := ih (fun e he => h e (.tail _ he)) after env
        (by rw [hk.size]; exact hs) (hk.agrees ha)
      exact ⟨by simp [he', ← he], hk.trans hk'⟩

theorem tracks_one (held : Bool) (h : ∀ e ∈ es, Tracks limit visible (e.eval input pool call)
      (e.holds input pool judge)) :
    Tracks limit visible (Expr.evalOne input pool call held es) fun env =>
      held.toNat + es.countP (·.holds input pool judge env) == 1 := by
  induction es generalizing held with
  | nil =>
    refine fun row env _ _ => ⟨?_, Keeps.refl _ _⟩
    cases held <;> rfl
  | cons e es ih =>
    intro row env hs ha
    obtain ⟨he, hk⟩ := h e (by simp) row env hs ha
    rcases hr : e.eval input pool call row with ⟨b, after⟩
    rw [hr] at he hk
    have later (held : Bool) := ih held (fun e he => h e (.tail _ he)) after env
      (by rw [hk.size]; exact hs) (hk.agrees ha)
    cases b with
    | false =>
      obtain ⟨he', hk'⟩ := later held
      have hv : Expr.evalOne input pool call held (e :: es) row
          = Expr.evalOne input pool call held es after := by cases held <;> simp [Expr.evalOne, hr]
      rw [hv]
      exact ⟨by simp [he', ← he], hk.trans hk'⟩
    | true =>
      cases held with
      | true =>
        have hv : Expr.evalOne input pool call true (e :: es) row = (false, after) := by
          simp [Expr.evalOne, hr]
        rw [hv]
        exact ⟨by simp [← he], hk⟩
      | false =>
        obtain ⟨he', hk'⟩ := later true
        have hv : Expr.evalOne input pool call false (e :: es) row
            = Expr.evalOne input pool call true es after := by simp [Expr.evalOne, hr]
        rw [hv]
        exact ⟨by simp [he', ← he, Nat.add_comm], hk.trans hk'⟩

end Operands

namespace Expr

variable {base : Nat} {w : Stock} {visible : List Slot}

def CallsTrack (base : Nat) (w : Stock) (call : Routines) (judge : Judge) : Prop :=
  ∀ n f, base ≤ n → w.pool[n]? = some (.routine f) → ∀ i row, w.slots ≤ row.size →
    (call n i row).1 = judge n i ∧ (call n i row).2.size = row.size ∧
      ∀ j < f.item.index, (call n i row).2.getD j .missing = row.getD j .missing

theorem resolve_of_agrees (input : Instance) {r : ValueRef} {row : Slots} {env : Env}
    (hr : ∀ s ∈ r.slots, s ∈ visible) (ha : Agrees visible row env) :
    r.resolve input row = r.value input env := by
  rw [ValueRef.resolve_eq_value]
  exact ValueRef.value_congr fun s hs => ha s (hr s hs)

theorem eval_tracks (input : Instance) (pool : Declarations) {call : Routines} {judge : Judge}
    {e : Expr} (hc : CallsTrack base w call judge) (h : Everywhere (Placed base w) visible e) :
    Tracks w.slots visible (e.eval input pool call) (e.holds input pool judge) := by
  induction h with
  | @intro visible e here _ ih =>
    have settle (r : ValueRef) (hr : e.ref? = some r) {row env} (ha : Agrees visible row env) :=
      resolve_of_agrees input (here.inScope r hr) ha
    rcases hl : e.look? pool with _ | ⟨r, test⟩
    case some =>
      intro row env _ ha
      rw [eval_look hl, holds_look hl, settle r (ref?_look hl).1 ha]
      exact ⟨rfl, Keeps.refl _ _⟩
    cases e with
    | const b => exact fun row env _ _ => ⟨rfl, Keeps.refl _ _⟩
    | not e =>
      intro row env hs ha
      obtain ⟨he, hk⟩ := ih e (by simp [operands]) row env hs ha
      exact ⟨by simp only [eval, holds, he], hk⟩
    | all es =>
      intro row env hs ha
      have hes : ∀ e ∈ es, Tracks w.slots visible _ (e.holds input pool judge) := ih
      have := tracks_all hes row env hs ha
      simpa [eval, holds, List.all_map, Function.comp_def] using this
    | any es =>
      intro row env hs ha
      have hes : ∀ e ∈ es, Tracks w.slots visible _ (e.holds input pool judge) := ih
      have := tracks_anyOf hes row env hs ha
      simpa [eval, holds, List.any_map, Function.comp_def] using this
    | exactlyOne es =>
      intro row env hs ha
      have hes : ∀ e ∈ es, Tracks w.slots visible _ (e.holds input pool judge) := ih
      have := tracks_one false hes row env hs ha
      simpa [eval, holds, List.count, List.countP_map, Function.comp_def] using this
    | allItems r item body =>
      obtain ⟨hl, hv⟩ := here.ordered.binder item rfl
      have hb := ih body (by simp [operands])
      intro row env hs ha
      rw [eval, holds, settle r rfl ha]
      cases (r.value input env).items? with
      | none => exact ⟨rfl, Keeps.refl _ _⟩
      | some items =>
        simpa [List.all_map, Function.comp_def] using
          tracks_every hb hl hv (items.map .value) row env hs ha
    | anyItem r item body =>
      obtain ⟨hl, hv⟩ := here.ordered.binder item rfl
      have hb := ih body (by simp [operands])
      intro row env hs ha
      rw [eval, holds, settle r rfl ha]
      cases (r.value input env).items? with
      | none => exact ⟨rfl, Keeps.refl _ _⟩
      | some items =>
        simpa [List.any_map, Function.comp_def] using
          tracks_any hb hl hv (items.map .value) row env hs ha
    | allKeys r key body =>
      obtain ⟨hl, hv⟩ := here.ordered.binder key rfl
      have hb := ih body (by simp [operands])
      intro row env hs ha
      rw [eval, holds, settle r rfl ha]
      cases (r.value input env).entries? with
      | none => exact ⟨rfl, Keeps.refl _ _⟩
      | some entries =>
        simpa [List.all_map, Function.comp_def] using
          tracks_every hb hl hv (entries.keys.map .key) row env hs ha
    | call n r =>
      obtain ⟨f, hf⟩ := here.named
      obtain ⟨hb, ht⟩ := here.ordered.callee n r rfl
      intro row env hs ha
      obtain ⟨he, hz, hk⟩ := hc n f hb hf (r.value input env) row hs
      rw [eval, holds, settle r rfl ha]
      refine ⟨he, hz, fun s hs j hj => hk j ?_⟩
      exact Nat.lt_of_le_of_lt hj (ht f hf s hs)
    | unique r helper =>
      cases helper with
      | none => simp [look?] at hl
      | some n => simp only [look?] at hl; split at hl <;> simp at hl
    | matchesPattern r n => simp only [look?] at hl; split at hl <;> simp at hl
    | inTable r n => simp only [look?] at hl; split at hl <;> simp at hl
    | _ => simp [look?] at hl

end Expr

section Calls

variable {base : Nat} {w : Stock} {pool : Declarations} {input : Instance} {visible : List Slot}

theorem tracks_run {limit : Nat} {f : Routine} {call : Routines} {judge : Judge}
    (hb : Tracks limit (f.item :: visible) (f.body.eval input pool call)
      (f.body.holds input pool judge))
    (hl : f.item.index < limit) (hv : ∀ t ∈ visible, t.index < f.item.index) (items : List Json) :
    Tracks limit visible (f.run input pool call items) fun env => f.asks
      (fun x => f.body.holds input pool judge (Function.update env f.item.index (.value x)))
      items := by
  cases f with
  | count item body least most =>
    have := tracks_count hb hl hv least most (items.map .value) 0 (by simp)
    simpa [Routine.run, Routine.asks, Routine.item, Routine.body, List.countP_map,
      Function.comp_def] using this
  | everyFrom start item body =>
    have := tracks_every hb hl hv ((items.drop start).map .value)
    simpa only [Routine.run, Routine.asks, Routine.item, Routine.body, List.all_map,
      Function.comp_def] using this

/-- Routines of a placed workspace judge as in lexical evaluation: by induction on the name, since
a body calls earlier routines only. -/
theorem below_tracks (hw : w.Placed base) (hp : w.pool <+: pool) (n : Name) {m : Nat}
    (hm : n < m) {f : Routine} (hn : base ≤ n) (hf : w.pool[n]? = some (.routine f))
    (i : Instance) (row : Slots) (hs : w.slots ≤ row.size) :
    (Routine.below input pool m n i row).1 = Routine.judgesBelow input pool m n i ∧
      (Routine.below input pool m n i row).2.size = row.size ∧
      ∀ j < f.item.index,
        (Routine.below input pool m n i row).2.getD j .missing = row.getD j .missing := by
  induction n using Nat.strongRecOn generalizing m f i row with
  | ind n ih =>
    have hf' := Declarations.get_extended hp hf
    rw [Routine.below_of_lt hm hf', Routine.judgesBelow_of_lt hm hf']
    cases i.items? with
    | none => exact ⟨rfl, rfl, fun _ _ => rfl⟩
    | some items =>
      obtain ⟨hl, hbody⟩ := hw n f hn hf
      have calls : Expr.CallsTrack base ⟨w.pool.take n, w.slots⟩ (Routine.below input pool n)
          (Routine.judgesBelow input pool n) := by
        intro k g hk hg i row hs
        obtain ⟨hkn, hg⟩ : k < n ∧ w.pool[k]? = some (.routine g) := by
          simpa [List.getElem?_take] using hg
        exact ih k hkn hkn hk hg i row hs
      -- The body is placed with an earlier loop variable in view as well, which it then keeps.
      have body (visible : List Slot) (hv : ∀ t ∈ visible, t.index < f.item.index) :=
        have hc : Expr.Covers [f.item] (f.item :: visible) :=
          ⟨by simp, by simpa using fun t ht => Nat.le_of_lt (hv t ht)⟩
        tracks_run (Expr.eval_tracks input pool calls (Expr.everywhere_cover hc hbody)) hl hv
          items row
      obtain ⟨he, hk⟩ := body [] (by simp) (fun _ => .missing) hs (by simp [Agrees])
      refine ⟨he, hk.size, fun j hj => ?_⟩
      have hj := body [⟨.item, j⟩] (by simpa using hj) (fun i => row.getD i .missing) hs
        (by simp [Agrees])
      exact hj.2.below ⟨.item, j⟩ (by simp) j (Nat.le_refl _)

theorem calls_track (hw : w.Placed base) (hp : w.pool <+: pool) :
    Expr.CallsTrack base w (Routine.below input pool pool.length) (pool.judge input) :=
  fun n _ hn hf i row hs =>
    have inside := (List.getElem?_eq_some_iff.mp (Declarations.get_extended hp hf)).1
    below_tracks hw hp n inside hn hf i row hs

/-- A placed condition evaluates in a row of slots as in the environment that the row gives. -/
theorem eval_eq_truth (hw : w.Placed base) (hp : w.pool <+: pool) {e : Expr}
    (h : Expr.Everywhere (Expr.Placed base w) visible e) (input : Instance) {row : Slots}
    {env : Env} (hs : w.slots ≤ row.size) (ha : Agrees visible row env) :
    (e.eval input pool (Routine.below input pool pool.length) row).1 = e.truth pool input env :=
  (Expr.eval_tracks input pool (calls_track hw hp) h row env hs ha).1

end Calls

end SchemaLogic
