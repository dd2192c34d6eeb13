import Mathlib.Data.List.TakeDrop
import SchemaLogic.Pattern.Dialect

/-! # Respelling, construct by construct

A pattern is respelled from the left, one construct after another, and what a construct becomes does
not depend on what stood before it but for the open class. -/
namespace SchemaLogic.Pattern

/-! ## Escapes of code units -/

def Quad (digits : List Char) (unit : Nat) : Prop :=
  digits.length = 4 ∧ Text.hexNumber? digits = some unit

theorem unit?_eq_some {cs rest : List Char} {unit : Nat} :
    unit? cs = some (unit, rest) ↔ ∃ digits, Quad digits unit ∧ cs = digits ++ rest := by
  constructor
  · intro h
    rcases cs with _ | ⟨a, _ | ⟨b, _ | ⟨c, _ | ⟨d, tail⟩⟩⟩⟩ <;> try cases h
    obtain ⟨u, hu, heq⟩ := Option.map_eq_some_iff.mp h
    cases heq
    exact ⟨[a, b, c, d], ⟨rfl, hu⟩, rfl⟩
  · rintro ⟨digits, ⟨hlength, hunit⟩, rfl⟩
    rcases digits with _ | ⟨a, _ | ⟨b, _ | ⟨c, _ | ⟨d, _ | _⟩⟩⟩⟩ <;> try cases hlength
    exact congrArg (Option.map fun unit => (unit, rest)) hunit

theorem lowSurrogate?_eq_some {cs rest : List Char} {low : Nat} :
    lowSurrogate? cs = some (low, rest) ↔ Text.isLowSurrogate low = true ∧
      ∃ digits, Quad digits low ∧ cs = '\\' :: 'u' :: digits ++ rest := by
  constructor
  · intro h
    unfold lowSurrogate? at h
    split at h
    · split at h
      · next unit after hunit =>
        obtain ⟨hlow, heq⟩ := Option.ite_none_right_eq_some.mp h
        cases heq
        obtain ⟨digits, hquad, rfl⟩ := unit?_eq_some.mp hunit
        exact ⟨hlow, digits, hquad, rfl⟩
      · cases h
    · cases h
  · rintro ⟨hlow, digits, hquad, rfl⟩
    have hunit : unit? (digits ++ rest) = some (low, rest) := unit?_eq_some.mpr ⟨digits, hquad, rfl⟩
    simp only [List.cons_append, lowSurrogate?, hunit, hlow, if_true]

/-! ## One construct after another -/

theorem throughBrace_rest (cs : List Char) : (throughBrace cs).2.length ≤ cs.length := by
  rw [throughBrace]
  split
  · next brace rest h =>
    have hdrop := (List.dropWhile_suffix (l := cs) (· != '\x7d')).length_le
    rw [h, List.length_cons] at hdrop
    exact Nat.le_of_succ_le hdrop
  · exact Nat.zero_le _

theorem spellUnit_rest (unicode : Bool) (unit : Nat) (rest : List Char) :
    (spellUnit unicode unit rest).2.length ≤ rest.length := by
  rw [spellUnit]
  split
  · next low tail _ h =>
    obtain ⟨-, digits, -, rfl⟩ := lowSurrogate?_eq_some.mp h
    rw [List.length_append]
    exact Nat.le_add_left _ _
  · exact Nat.le_refl _

theorem spellEscape_rest (unicode : Bool) (boundary : Boundary) (inClass : Bool) (c : Char)
    (rest : List Char) : (spellEscape unicode boundary inClass c rest).2.length ≤ rest.length := by
  unfold spellEscape
  split <;> try exact Nat.le_refl _
  · split
    · split <;> simp
    · exact Nat.le_refl _
  · split
    · next unit tail h =>
      obtain ⟨digits, -, rfl⟩ := unit?_eq_some.mp h
      rw [List.length_append]
      exact Nat.le_trans (spellUnit_rest _ _ _) (Nat.le_add_left _ _)
    · split
      · exact throughBrace_rest rest
      · exact Nat.le_refl _
  · split
    · exact throughBrace_rest rest
    · repeat' split
      all_goals exact Nat.le_refl _

theorem quantifierBody?_rest {cs body rest : List Char}
    (h : quantifierBody? cs = some (body, rest)) : rest.length ≤ cs.length := by
  have hdrop (l : List Char) : (l.dropWhile Char.isDigit).length ≤ l.length :=
    (List.dropWhile_suffix _).length_le
  have hspan := hdrop cs
  unfold quantifierBody? at h
  simp only [List.span_eq_takeWhile_dropWhile] at h
  split at h
  · next tail htail =>
    obtain ⟨-, heq⟩ := Option.ite_none_left_eq_some.mp h
    cases heq
    have hlength := congrArg List.length htail
    rw [List.length_cons] at hlength
    split at hlength
    · next most hmost =>
      have hmore := hdrop most
      rw [hmost, List.length_cons] at hspan
      simp only at hlength
      omega
    · simp only at hlength
      omega
  · cases h

theorem spellBracket_rest (rest : List Char) : (spellBracket rest).rest.length ≤ rest.length := by
  unfold spellBracket
  split <;> simp
  omega

theorem spellNext_rest (unicode : Bool) (boundary : Boundary) (inClass : Bool) (c : Char)
    (rest : List Char) : (spellNext unicode boundary inClass c rest).rest.length ≤ rest.length := by
  unfold spellNext
  split <;> try exact Nat.le_refl _
  · split
    · exact Nat.le_refl _
    · exact Nat.le_succ_of_le (spellEscape_rest _ _ _ _ _)
  · exact spellBracket_rest rest
  · split
    · next h => exact quantifierBody?_rest h
    · exact Nat.le_refl _

section Places

variable {unicode : Bool} {boundary : Boundary} {inClass : Bool}

theorem spellFrom_enough {fuel enough : Nat} {cs : List Char} (h : cs.length ≤ fuel)
    (h' : cs.length ≤ enough) :
    spellFrom unicode boundary fuel inClass cs = spellFrom unicode boundary enough inClass cs := by
  induction fuel generalizing enough inClass cs with
  | zero =>
    rw [List.length_eq_zero_iff.mp (Nat.le_zero.mp h)]
    cases enough <;> rfl
  | succ fuel ih =>
    cases cs with
    | nil => cases enough <;> rfl
    | cons c rest =>
      obtain ⟨enough, rfl⟩ := Nat.exists_eq_add_one_of_ne_zero (Nat.ne_zero_of_lt h')
      have hrest := spellNext_rest unicode boundary inClass c rest
      rw [spellFrom, spellFrom, ih (Nat.le_trans hrest (Nat.le_of_succ_le_succ h))
        (Nat.le_trans hrest (Nat.le_of_succ_le_succ h'))]

/-- A text respelled from a place inside or outside of a class. -/
def respellAt (unicode : Bool) (boundary : Boundary) (inClass : Bool) (cs : List Char) :
    List Char :=
  spellFrom unicode boundary cs.length inClass cs

theorem respell_eq (source : List Char) :
    respell unicode boundary source = respellAt unicode boundary false source := rfl

theorem respellAt_cons (c : Char) (rest : List Char) :
    respellAt unicode boundary inClass (c :: rest) =
      (spellNext unicode boundary inClass c rest).spelling ++
        respellAt unicode boundary (spellNext unicode boundary inClass c rest).inClass
          (spellNext unicode boundary inClass c rest).rest := by
  rw [respellAt, List.length_cons, spellFrom, respellAt,
    spellFrom_enough (spellNext_rest unicode boundary inClass c rest) (Nat.le_refl _)]

theorem respellAt_escape (c : Char) (rest : List Char) :
    respellAt unicode boundary inClass ('\\' :: c :: rest) =
      (spellEscape unicode boundary inClass c rest).1 ++
        respellAt unicode boundary inClass (spellEscape unicode boundary inClass c rest).2 := by
  rw [respellAt_cons]
  cases inClass <;> rfl

def isMarked : (inClass : Bool) → Char → Bool
  | false, c => c == '\\' || c == '[' || c == '.' || c == '\x7b' || c == '\x7d'
  | true, c => c == '\\' || c == '[' || c == ']' || c == '&' || c == '~'

theorem respellAt_plain {c : Char} (h : isMarked inClass c = false) (rest : List Char) :
    respellAt unicode boundary inClass (c :: rest) =
      spellChar unicode c ++ respellAt unicode boundary inClass rest := by
  have next : spellNext unicode boundary inClass c rest = ⟨spellChar unicode c, inClass, rest⟩ := by
    cases inClass <;> simp only [isMarked, Bool.or_eq_false_iff, beq_eq_false_iff_ne] at h <;>
      unfold spellNext <;> split <;> simp_all
  rw [respellAt_cons, next]

theorem isAlphanum_of_isKept {c : Char} (h : isKept c = true) : c.isAlphanum = true := by
  simp only [isKept, Bool.or_eq_true, beq_iff_eq, Bool.and_eq_true, decide_eq_true_eq] at h
  rcases h with ((((((((rfl | rfl) | rfl) | rfl) | rfl) | rfl) | rfl) | rfl) | rfl) | ⟨h1, h9⟩ <;>
    try rfl
  have digit : c.isDigit = true := by
    simp only [Char.isDigit, Bool.and_eq_true, decide_eq_true_eq]
    exact ⟨UInt32.le_trans (by decide) h1, h9⟩
  rw [Char.isAlphanum, digit, Bool.or_true]

def spellPunctuation (unicode : Bool) (c : Char) : List Char :=
  if c = '<' ∨ c = '>' then [c] else if c.toNat < 0x80 then ['\\', c] else spellChar unicode c

theorem respellAt_punctuation {c : Char} (hword : c.isAlphanum = false) (rest : List Char) :
    respellAt unicode boundary inClass ('\\' :: c :: rest) =
      spellPunctuation unicode c ++ respellAt unicode boundary inClass rest := by
  have kept : isKept c = false := by
    cases hkept : isKept c with
    | false => rfl
    | true => rw [isAlphanum_of_isKept hkept] at hword; cases hword
  have property : (c == 'p' || c == 'P') = false := by
    by_contra h
    rw [Bool.not_eq_false, Bool.or_eq_true, beq_iff_eq, beq_iff_eq] at h
    rcases h with rfl | rfl <;> cases hword
  have escape :
      spellEscape unicode boundary inClass c rest = (spellPunctuation unicode c, rest) := by
    unfold spellEscape
    split <;> try exact absurd hword (by decide)
    simp only [property, kept, hword, spellPunctuation, Bool.false_and, Bool.false_or,
      Bool.false_eq_true, if_false, Bool.or_eq_true, beq_iff_eq]
    split
    · rfl
    · split <;> rfl
  rw [respellAt_escape, escape]

end Places

end SchemaLogic.Pattern
