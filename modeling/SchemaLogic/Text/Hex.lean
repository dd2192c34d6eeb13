/-! # Hexadecimal digits -/
namespace SchemaLogic.Text

def hexValue? (c : Char) : Option Nat :=
  if '0' ≤ c ∧ c ≤ '9' then some (c.toNat - '0'.toNat)
  else if 'a' ≤ c ∧ c ≤ 'f' then some (c.toNat - 'a'.toNat + 10)
  else if 'A' ≤ c ∧ c ≤ 'F' then some (c.toNat - 'A'.toNat + 10)
  else none

def hexNumber? (cs : List Char) : Option Nat :=
  if cs.isEmpty then none
  else (cs.mapM hexValue?).map fun digits => digits.foldl (fun n digit => 16 * n + digit) 0

def hexText (n : Nat) : List Char := (Nat.toDigits 16 n).map Char.toUpper

theorem hexValue?_digitChar {d : Nat} (h : d < 16) :
    hexValue? (Nat.digitChar d).toUpper = some d := by
  have all : ∀ d < 16, hexValue? (Nat.digitChar d).toUpper = some d := by decide
  exact all d h

theorem hexNumber?_concat {cs : List Char} {c : Char} {n d : Nat} (hcs : hexNumber? cs = some n)
    (hc : hexValue? c = some d) : hexNumber? (cs ++ [c]) = some (16 * n + d) := by
  rw [hexNumber?] at hcs ⊢
  split at hcs
  · cases hcs
  · obtain ⟨digits, hdigits, rfl⟩ := Option.map_eq_some_iff.mp hcs
    simp [List.mapM_append, hdigits, hc]

theorem hexNumber?_singleton {c : Char} {d : Nat} (h : hexValue? c = some d) :
    hexNumber? [c] = some d := by
  simp [hexNumber?, h]

theorem hexNumber?_hexText (n : Nat) : hexNumber? (hexText n) = some n := by
  induction n using Nat.strongRecOn with
  | ind n ih =>
    rw [hexText]
    by_cases h : n < 16
    · rw [Nat.toDigits_of_lt_base h]
      exact hexNumber?_singleton (hexValue?_digitChar h)
    · rw [Nat.toDigits_of_base_le (by decide) (Nat.le_of_not_lt h), List.map_append,
        List.map_singleton]
      have high := ih (n / 16) (Nat.div_lt_self (by omega) (by decide))
      rw [hexText] at high
      rw [hexNumber?_concat high (hexValue?_digitChar (Nat.mod_lt n (by decide))), Nat.div_add_mod]

theorem hexValue?_of_hexNumber? {cs : List Char} {n : Nat} (h : hexNumber? cs = some n) :
    ∀ c ∈ cs, (hexValue? c).isSome = true := by
  have mapped (cs : List Char) (digits : List Nat) (h : cs.mapM hexValue? = some digits) :
      ∀ c ∈ cs, (hexValue? c).isSome = true := by
    induction cs generalizing digits with
    | nil => simp
    | cons c cs ih =>
      simp only [List.mapM_cons, bind, Option.bind_eq_some_iff] at h
      obtain ⟨d, hd, rest, hrest, -⟩ := h
      exact List.forall_mem_cons.mpr ⟨by rw [hd]; rfl, ih rest hrest⟩
  rw [hexNumber?] at h
  split at h
  · cases h
  · obtain ⟨digits, hdigits, -⟩ := Option.map_eq_some_iff.mp h
    exact mapped cs digits hdigits

end SchemaLogic.Text
