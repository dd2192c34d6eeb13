import Mathlib.Data.List.Forall2

/-! # Computations that agree

Two computations agree if both fail or both succeed, with related results. -/
namespace SchemaLogic

/-- Both computations fail, with related errors, or they have related results. -/
inductive Agree {ε α β : Type} (E : ε → ε → Prop) (R : α → β → Prop) :
    Except ε α → Except ε β → Prop where
  | ok {a b} : R a b → Agree E R (.ok a) (.ok b)
  | error {e e'} : E e e' → Agree E R (.error e) (.error e')

abbrev AnyError {ε : Type} (_ _ : ε) : Prop := True

/-- The computations differ in the errors that they give at most. -/
abbrev Alike {ε α : Type} (x y : Except ε α) : Prop := Agree AnyError Eq x y

section Agree

variable {ε α β γ δ : Type} {E : ε → ε → Prop} {R : α → β → Prop} {S : γ → δ → Prop}

theorem Agree.imp {R' : α → β → Prop} {x : Except ε α} {y : Except ε β} (h : Agree E R x y)
    (k : ∀ a b, x = .ok a → y = .ok b → R a b → R' a b) : Agree E R' x y := by
  cases h with
  | ok hab => exact .ok (k _ _ rfl rfl hab)
  | error he => exact .error he

theorem Agree.mono {R' : α → β → Prop} {x : Except ε α} {y : Except ε β} (h : Agree E R x y)
    (k : ∀ a b, R a b → R' a b) : Agree E R' x y :=
  h.imp fun a b _ _ => k a b

theorem Agree.bind {x : Except ε α} {y : Except ε β} {f : α → Except ε γ} {g : β → Except ε δ}
    (h : Agree E R x y) (k : ∀ a b, R a b → Agree E S (f a) (g b)) :
    Agree E S (x >>= f) (y >>= g) := by
  cases h with
  | ok hab => exact k _ _ hab
  | error he => exact .error he

theorem Agree.share (x : Except ε α) {f : α → Except ε γ} {g : α → Except ε δ}
    (k : ∀ a, x = .ok a → Agree Eq S (f a) (g a)) : Agree Eq S (x >>= f) (x >>= g) := by
  cases x with
  | ok a => exact k a rfl
  | error e => exact .error rfl

theorem agree_mapM {f : α → Except ε γ} {g : α → Except ε δ} {l : List α}
    (h : ∀ a ∈ l, Agree E S (f a) (g a)) : Agree E (List.Forall₂ S) (l.mapM f) (l.mapM g) := by
  induction l with
  | nil => exact .ok .nil
  | cons a l ih =>
    rw [List.mapM_cons, List.mapM_cons]
    refine (h a (by simp)).bind fun c d hcd => ?_
    exact (ih fun b hb => h b (.tail _ hb)).bind fun cs ds hs => .ok (.cons hcd hs)

theorem agree_foldlM {f : γ → α → Except ε γ} {g : δ → α → Except ε δ} {l : List α}
    (h : ∀ a ∈ l, ∀ c d, S c d → Agree E S (f c a) (g d a)) {c : γ} {d : δ} (hcd : S c d) :
    Agree E S (l.foldlM f c) (l.foldlM g d) := by
  induction l generalizing c d with
  | nil => exact .ok hcd
  | cons a l ih =>
    rw [List.foldlM_cons, List.foldlM_cons]
    exact (h a (by simp) c d hcd).bind fun _ _ => ih fun b hb => h b (.tail _ hb)

theorem Alike.refl (x : Except ε α) : Alike x x := by
  cases x with
  | ok a => exact .ok rfl
  | error e => exact .error trivial

theorem Alike.ok_iff {x y : Except ε α} (h : Alike x y) (a : α) : x = .ok a ↔ y = .ok a := by
  cases h with
  | ok h => rw [h]
  | error he => simp

theorem Alike.bind {x y : Except ε α} {f g : α → Except ε γ} (h : Alike x y)
    (k : ∀ a, Alike (f a) (g a)) : Alike (x >>= f) (y >>= g) := by
  refine Agree.bind h ?_
  rintro a b rfl
  exact k a

theorem alike_mapM {p : α → β} {f : α → Except ε γ} {g : β → Except ε γ} {l : List α}
    (h : ∀ a ∈ l, Alike (f a) (g (p a))) : Alike (l.mapM f) ((l.map p).mapM g) := by
  rw [List.mapM_map]
  refine (agree_mapM h).mono fun cs ds hs => ?_
  rwa [List.forall₂_eq_eq_eq] at hs

theorem alike_foldlM {p : α → β} {f : γ → α → Except ε γ} {g : γ → β → Except ε γ} {l : List α}
    (h : ∀ a ∈ l, ∀ c, Alike (f c a) (g c (p a))) (c : γ) :
    Alike (l.foldlM f c) ((l.map p).foldlM g c) := by
  rw [List.foldlM_map]
  refine agree_foldlM (fun a ha c d hcd => ?_) rfl
  rw [← hcd]
  exact h a ha c

end Agree

end SchemaLogic
