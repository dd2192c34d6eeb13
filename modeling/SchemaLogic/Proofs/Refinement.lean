import SchemaLogic.Proofs.JsonText
import SchemaLogic.Proofs.PoolTables
import SchemaLogic.Proofs.ScopeMeaning

/-! # Compilation against meanings

A run of the compiler refines a pure computation if both fail with the same error, or both
succeed with results that belong together. Along the way the workspace stays sound, and the loop
variables bound by what is still at hand are accounted for. -/
namespace SchemaLogic

def Declaration.bound : Declaration → List Nat
  | .routine f => f.item.index :: f.body.bound
  | _ => []

namespace Stock

def tally (w : Stock) (i : Nat) : Nat := (w.pool.flatMap Declaration.bound).count i

/-- A loop variable that was handed out is bound at one place at most, be it in a routine or in
the conditions at hand. -/
def Owns (w : Stock) (atHand : Nat → Nat) : Prop :=
  ∀ i, atHand i + w.tally i ≤ if i < w.slots then 1 else 0

theorem Owns.mono {w : Stock} {c d : Nat → Nat} (h : w.Owns c) (hd : ∀ i, d i ≤ c i) :
    w.Owns d :=
  fun i => Nat.le_trans (Nat.add_le_add_right (hd i) _) (h i)

/-- What every step of the compiler keeps. Routines declared before `base` are not looked at. -/
structure Sound [Pattern.Engines] (o : Options) (base : Nat) (w : Stock) : Prop where
  base_le : base ≤ w.pool.length
  patterns : ∀ (n : Name) p, w.pool[n]? = some (.pattern p) →
    Pattern.compile? o.unicodeAwareRegex p.source = some p
  placed : w.Placed base
  folded : ∀ (n : Name) f, base ≤ n → w.pool[n]? = some (.routine f) → f.body.Folded

variable {o : Options} {base : Nat} {w : Stock}

def push (w : Stock) (d : Declaration) : Stock := ⟨w.pool ++ [d], w.slots⟩

theorem grows_push (w : Stock) (d : Declaration) : w.Grows (w.push d) :=
  ⟨⟨[d], rfl⟩, Nat.le_refl _⟩

theorem tally_push (w : Stock) (d : Declaration) (i : Nat) :
    (w.push d).tally i = w.tally i + d.bound.count i := by
  simp [tally, push]

theorem push_get (w : Stock) (d : Declaration) :
    (w.push d).pool[w.pool.length]? = some d := by simp [push]

theorem push_take (w : Stock) (d : Declaration) :
    (w.push d).pool.take w.pool.length = w.pool := by simp [push]

theorem Sound.push [Pattern.Engines] (hw : w.Sound o base) {d : Declaration}
    (hp : ∀ p, d = .pattern p → Pattern.compile? o.unicodeAwareRegex p.source = some p)
    (hr : ∀ f, d = .routine f → f.item.index < w.slots ∧
      Expr.Everywhere (Expr.Placed base w) [f.item] f.body ∧ f.body.Folded) :
    (w.push d).Sound o base where
  base_le := Nat.le_trans hw.base_le (by simp [Stock.push])
  patterns n p h := by
    rcases Declarations.get_concat.mp h with h | ⟨rfl, hd⟩
    · exact hw.patterns n p h
    · exact hp p hd
  placed n f hb h := by
    rcases Declarations.get_concat.mp h with h | ⟨rfl, hd⟩
    · have hn : n ≤ w.pool.length := Nat.le_of_lt (List.getElem?_eq_some_iff.mp h).1
      have ht : (w.push d).pool.take n = w.pool.take n := by
        simp [Stock.push, List.take_append_of_le_length hn]
      rw [ht]
      exact hw.placed n f hb h
    · rw [push_take]
      exact ⟨(hr f hd).1, (hr f hd).2.1⟩
  folded n f hb h := by
    rcases Declarations.get_concat.mp h with h | ⟨rfl, hd⟩
    · exact hw.folded n f hb h
    · exact (hr f hd).2.2

def bump (w : Stock) : Stock := { w with slots := w.slots + 1 }

theorem grows_bump (w : Stock) : w.Grows w.bump := ⟨List.prefix_rfl, Nat.le_succ _⟩

theorem Sound.bump [Pattern.Engines] (hw : w.Sound o base) : w.bump.Sound o base where
  base_le := hw.base_le
  patterns := hw.patterns
  placed n f hb h := by
    obtain ⟨hi, hbody⟩ := hw.placed n f hb h
    have hg : Grows ⟨w.pool.take n, w.slots⟩ ⟨w.bump.pool.take n, w.bump.slots⟩ :=
      ⟨List.prefix_rfl, Nat.le_succ _⟩
    exact ⟨Nat.lt_succ_of_lt hi, Expr.everywhere_grow hg hbody⟩
  folded := hw.folded

end Stock

variable [Pattern.Engines]

namespace Workspace

/-- A workspace with a sound stock, in which the tables of the pool can be relied on. -/
structure Sound (o : Options) (base : Nat) (w : Workspace) : Prop
    extends Stock.Sound o base w.stock where
  coherent : w.pool.Coherent

/-- The workspace after some steps, with the loop variables at hand before and after. -/
structure Advance (o : Options) (base : Nat) (w u : Workspace) (before after : Nat → Nat) :
    Prop where
  grows : w.stock.Grows u.stock
  sound : u.Sound o base
  owns : ∀ rest : Nat → Nat, w.stock.Owns (fun i => before i + rest i) →
    u.stock.Owns fun i => after i + rest i

variable {o : Options} {base : Nat} {w u v : Workspace} {before mid after : Nat → Nat}

theorem Advance.refl (hw : w.Sound o base) (h : ∀ i, after i ≤ before i) :
    Advance o base w w before after :=
  ⟨.refl w.stock, hw, fun _ ho => ho.mono fun i => Nat.add_le_add_right (h i) _⟩

theorem Advance.trans (h : Advance o base w u before mid) (k : Advance o base u v mid after) :
    Advance o base w v before after :=
  ⟨h.grows.trans k.grows, k.sound, fun rest ho => k.owns rest (h.owns rest ho)⟩

theorem Advance.frame (h : Advance o base w u before after) (rest : Nat → Nat) :
    Advance o base w u (fun i => before i + rest i) (fun i => after i + rest i) := by
  refine ⟨h.grows, h.sound, fun more ho => ?_⟩
  simp only [Nat.add_assoc] at ho ⊢
  exact h.owns _ ho

def declare (w : Workspace) (d : Declaration) : Workspace := { w with pool := w.pool.declare d }

omit [Pattern.Engines] in
theorem stock_declare (w : Workspace) (d : Declaration) : (w.declare d).stock = w.stock.push d := by
  simp [declare, stock, Stock.push]

omit [Pattern.Engines] in
theorem declare_get (w : Workspace) (d : Declaration) :
    (w.declare d).stock.pool[w.pool.declarations.length]? = some d := by
  rw [stock_declare]
  exact w.stock.push_get d

theorem Sound.declare (hw : w.Sound o base) {d : Declaration}
    (fresh : ∀ key, d.key? = some key → w.pool.find? key = none)
    (hs : (w.stock.push d).Sound o base) : (w.declare d).Sound o base where
  toSound := stock_declare w d ▸ hs
  coherent := hw.coherent.declare fresh

theorem Sound.advance_declare (hw : w.Sound o base) {d : Declaration}
    (fresh : ∀ key, d.key? = some key → w.pool.find? key = none)
    (hs : (w.stock.push d).Sound o base) (hb : ∀ i, d.bound.count i + after i ≤ before i) :
    w.Advance o base (w.declare d) before after := by
  refine ⟨?_, hw.declare fresh hs, fun rest ho i => ?_⟩
  · rw [stock_declare]
    exact w.stock.grows_push d
  · have h : before i + rest i + w.stock.tally i ≤ if i < w.slots then 1 else 0 := ho i
    have hbi := hb i
    rw [stock_declare, Stock.tally_push]
    change after i + rest i + _ ≤ if i < w.slots then 1 else 0
    omega

def bump (w : Workspace) : Workspace := { w with slots := w.slots + 1 }

theorem Sound.bump (hw : w.Sound o base) : w.bump.Sound o base :=
  ⟨hw.toSound.bump, hw.coherent⟩

end Workspace

/-- A run of the compiler from a workspace keeps to a pure computation. -/
def Refines {α β : Type} (o : Options) (base : Nat) (w : Workspace) (before : Nat → Nat)
    (run : Compile α) (d : Except CompileError β) (after : α → Nat → Nat)
    (Q : Workspace → α → β → Prop) : Prop :=
  match run w, d with
  | .ok (a, u), .ok b => w.Advance o base u before (after a) ∧ Q u a b
  | .error e, .error cause => e = cause
  | _, _ => False

namespace Refines

variable {α β γ δ : Type} {o : Options} {base : Nat} {w : Workspace} {before : Nat → Nat}
variable {run : Compile α} {d : Except CompileError β} {after : α → Nat → Nat}
variable {Q : Workspace → α → β → Prop} {f : α → Compile γ} {g : β → Except CompileError δ}
variable {last : γ → Nat → Nat} {R : Workspace → γ → δ → Prop}

theorem cases (h : Refines o base w before run d after Q) :
    (∃ a u b, run w = .ok (a, u) ∧ d = .ok b ∧ w.Advance o base u before (after a) ∧ Q u a b) ∨
      ∃ e, run w = .error e ∧ d = .error e := by
  unfold Refines at h
  split at h
  · next a u b hr => exact .inl ⟨a, u, b, hr, rfl, h⟩
  · next e cause hr => exact .inr ⟨e, hr, by rw [h]⟩
  · exact h.elim

theorem of_ok {a : α} {u : Workspace} {b : β} (hr : run w = .ok (a, u)) (hd : d = .ok b)
    (ha : w.Advance o base u before (after a)) (hq : Q u a b) :
    Refines o base w before run d after Q := by
  simp only [Refines, hr, hd]
  exact ⟨ha, hq⟩

theorem of_error {e : CompileError} (hr : run w = .error e) (hd : d = .error e) :
    Refines o base w before run d after Q := by
  simp only [Refines, hr, hd]

theorem done (hw : w.Sound o base) {a : α} {b : β} (hq : Q w a b)
    (ha : ∀ i, after a i ≤ before i) :
    Refines o base w before (Pure.pure a) (Pure.pure b) after Q :=
  of_ok rfl rfl (.refl hw ha) hq

theorem fail (e : CompileError) : Refines o base w before (throw e) (throw e) after Q :=
  of_error rfl rfl

/-- A step that the pure computation does not have. -/
theorem silent {a : α} {u : Workspace} {mid : Nat → Nat} {e : Except CompileError δ}
    (hr : run w = .ok (a, u)) (ha : w.Advance o base u before mid)
    (k : Refines o base u mid (f a) e last R) :
    Refines o base w before (run >>= f) e last R := by
  have hf : (run >>= f) w = f a u := by
    change (run w >>= fun p => f p.1 p.2) = _
    rw [hr]
    rfl
  rcases k.cases with ⟨c, v, b, hr', hd, ha', hq⟩ | ⟨e, hr', hd⟩
  · exact of_ok (hf.trans hr') hd (ha.trans ha') hq
  · exact of_error (hf.trans hr') hd

theorem bind (h : Refines o base w before run d after Q)
    (k : ∀ u a b, w.stock.Grows u.stock → u.Sound o base → Q u a b →
      Refines o base u (after a) (f a) (g b) last R) :
    Refines o base w before (run >>= f) (d >>= g) last R := by
  rcases h.cases with ⟨a, u, b, hr, rfl, ha, hq⟩ | ⟨e, hr, rfl⟩
  · exact silent hr ha (k u a b ha.grows ha.sound hq)
  · refine of_error (e := e) ?_ rfl
    change (run w >>= fun p => f p.1 p.2) = _
    rw [hr]
    rfl

/-- A run leaves alone the loop variables that it does not know about. -/
theorem frame (h : Refines o base w before run d after Q) (rest : Nat → Nat) :
    Refines o base w (fun i => before i + rest i) run d (fun a i => after a i + rest i) Q := by
  rcases h.cases with ⟨a, u, b, hr, hd, ha, hq⟩ | ⟨e, hr, hd⟩
  · exact of_ok hr hd (ha.frame rest) hq
  · exact of_error hr hd

theorem weaken (h : Refines o base w before run d after Q) {more : Nat → Nat}
    (hm : ∀ i, before i ≤ more i) : Refines o base w more run d after Q := by
  rcases h.cases with ⟨a, u, b, hr, hd, ha, hq⟩ | ⟨e, hr, hd⟩
  · exact of_ok hr hd ⟨ha.grows, ha.sound, fun rest ho =>
      ha.owns rest (ho.mono fun i => Nat.add_le_add_right (hm i) _)⟩ hq
  · exact of_error hr hd

theorem step (h : Refines o base w (fun _ => 0) run d after Q)
    (k : ∀ u a b, w.stock.Grows u.stock → u.Sound o base → Q u a b →
      Refines o base u (fun i => after a i + before i) (f a) (g b) last R) :
    Refines o base w before (run >>= f) (d >>= g) last R :=
  bind ((h.frame before).weaken fun _ => Nat.le_of_eq (Nat.zero_add _)) k

/-! ### The primitives of the compiler -/

theorem lift {x : Except CompileError α} {g : α → Except CompileError δ}
    (k : ∀ a, x = .ok a → Refines o base w before (f a) (g a) last R) :
    Refines o base w before (liftM x >>= f) (x >>= g) last R := by
  cases x with
  | error e => exact of_error rfl rfl
  | ok a => exact k a rfl

variable {e : Except CompileError δ}

/-- A new loop variable is at hand until it is bound. -/
theorem newSlot {kind : SlotKind} {f : Slot → Compile γ} (hw : w.Sound o base)
    (k : ∀ slot : Slot, slot.index = w.slots → w.bump.Sound o base →
      Refines o base w.bump (fun i => slot.once i + before i) (f slot) e
        last R) :
    Refines o base w before (Compile.newSlot kind >>= f) e last R := by
  have ha : w.Advance o base w.bump before
      fun i => (Slot.mk kind w.slots).once i + before i := by
    refine ⟨w.stock.grows_bump, hw.bump, fun rest ho i => ?_⟩
    have hi : before i + rest i + w.stock.tally i ≤ if i < w.slots then 1 else 0 := ho i
    change (if i = w.slots then 1 else 0) + before i + rest i + w.stock.tally i ≤
      if i < w.slots + 1 then 1 else 0
    split at hi <;> split <;> split <;> omega
  exact silent rfl ha (k ⟨kind, w.slots⟩ rfl hw.bump)

theorem share {key : Pool.Key} {d : Declaration} {f : Name → Compile γ} (hw : w.Sound o base)
    (hk : d.key? = some key) (hs : (w.stock.push d).Sound o base) (hb : d.bound = [])
    (k : ∀ u name shared, w.stock.Grows u.stock → u.Sound o base →
      u.stock.pool[name]? = some shared → shared.key? = some key →
      Refines o base u before (f name) e last R) :
    Refines o base w before ((fun w : Workspace =>
      .ok ((w.pool.share key d).1, { w with pool := (w.pool.share key d).2 }) :
        Compile Name) >>= f) e last R := by
  rcases w.pool.share_cases hk with ⟨name, hf, hr⟩ | ⟨hf, hr⟩
  · obtain ⟨shared, hn, hkey⟩ := (hw.coherent key name).mp hf
    exact silent (by rw [hr]) (.refl hw fun _ => Nat.le_refl _)
      (k w name shared (.refl w.stock) hw hn hkey)
  · have fresh : ∀ own, d.key? = some own → w.pool.find? own = none := by
      intro own hown
      obtain rfl : key = own := Option.some.inj (hk.symm.trans hown)
      exact hf
    have ha : w.Advance o base (w.declare d) before before :=
      hw.advance_declare fresh hs fun i => by simp [hb]
    exact silent (by rw [hr]; rfl) ha (k _ _ d ha.grows ha.sound (w.declare_get d) hk)

theorem addLiteral {json : Json} {f : Name → Compile γ} (hw : w.Sound o base)
    (k : ∀ u name, w.stock.Grows u.stock → u.Sound o base →
      u.stock.pool[name]? = some (.literal json) → Refines o base u before (f name) e last R) :
    Refines o base w before (Compile.addLiteral json >>= f) e last R := by
  refine share hw rfl (hw.toSound.push (by simp) (by simp)) rfl
    fun u name shared hg hu hn hs => k u name hg hu ?_
  cases shared with
  | literal other =>
    obtain rfl : other = json := Json.text_injective (by simpa [Declaration.key?] using hs)
    exact hn
  | _ => cases hs

theorem includeBuiltin {b : Builtin} {f : Name → Compile γ} (hw : w.Sound o base)
    (k : ∀ u name, w.stock.Grows u.stock → u.Sound o base →
      u.stock.pool[name]? = some (.builtin b) → Refines o base u before (f name) e last R) :
    Refines o base w before (Compile.includeBuiltin b >>= f) e last R := by
  refine share hw rfl (hw.toSound.push (by simp) (by simp)) rfl
    fun u name shared hg hu hn hs => k u name hg hu ?_
  cases shared <;> cases hs
  exact hn

/-- Patterns of one source are the same pattern, so a shared one is as good as a new one. -/
theorem addPattern (source : String) (hw : w.Sound o base) :
    Refines o base w (fun _ => 0) (Compile.addPattern o.unicodeAwareRegex source)
      (patternOf o.unicodeAwareRegex source) (fun _ _ => 0)
      fun u name p => u.stock.pool[name]? = some (.pattern p) := by
  have added {name : Name} {pool : Pool}
      (h : w.pool.addPattern? o.unicodeAwareRegex source = some (name, pool)) :
      Compile.addPattern o.unicodeAwareRegex source w = .ok (name, { w with pool := pool }) := by
    rw [Compile.addPattern, h]
  rcases w.pool.addPattern?_cases o.unicodeAwareRegex source with
    ⟨name, hf, hr⟩ | ⟨hf, ⟨p, hc, hr⟩ | ⟨hc, hr⟩⟩
  · obtain ⟨shared, hn, hkey⟩ := (hw.coherent _ name).mp hf
    cases shared with
    | pattern p =>
      obtain rfl : p.source = source := by simpa [Declaration.key?] using hkey
      refine of_ok (added hr) ?_ (.refl hw fun _ => Nat.le_refl _) hn
      rw [patternOf, hw.patterns name p hn]
    | _ => cases hkey
  · have hs : p.source = source := Pattern.source_compile? hc
    have fresh : ∀ own, (Declaration.pattern p).key? = some own → w.pool.find? own = none := by
      rintro _ ⟨⟩
      rw [hs]
      exact hf
    have hu : (w.stock.push (.pattern p)).Sound o base :=
      hw.toSound.push (fun q hq => by cases hq; rw [hs, hc]) (by simp)
    refine of_ok (added hr) ?_ (hw.advance_declare fresh hu fun i => Nat.le_refl _)
      (w.declare_get _)
    rw [patternOf, hc]
  · refine of_error (e := .invalidPattern source) ?_ ?_
    · rw [Compile.addPattern, hr]
    · rw [patternOf, hc]

theorem addRoutine {r : Routine} {m : Meaning (Option Json)} {f : Name → Compile γ}
    (left : Nat → Nat) (hw : w.Sound o base) (hi : r.item.index < w.slots)
    (hm : Realises base w [r.item] (ValueRef.slot r.item).subject m r.body)
    (hb : ∀ i, r.item.once i + r.body.binds i + left i ≤ before i)
    (k : (w.declare (.routine r)).Sound o base →
      Refines o base (w.declare (.routine r)) left (f w.stock.pool.length) e last R) :
    Refines o base w before (Compile.addRoutine r >>= f) e last R := by
  have hs : (w.stock.push (.routine r)).Sound o base :=
    hw.toSound.push (by simp) fun q hq => by cases hq; exact ⟨hi, hm.placed, hm.folded⟩
  have fresh : ∀ own, (Declaration.routine r).key? = some own → w.pool.find? own = none := by
    intro own hown
    cases hown
  have ha : w.Advance o base (w.declare (.routine r)) before left := by
    refine hw.advance_declare fresh hs fun i => ?_
    have hc : (Declaration.routine r).bound.count i =
        r.item.once i + r.body.binds i := by
      simp only [Declaration.bound, List.count_cons, Expr.binds, Slot.once, beq_iff_eq,
        eq_comm (a := i)]
      omega
    rw [hc]
    exact hb i
  exact silent rfl ha (k ha.sound)

end Refines

end SchemaLogic
