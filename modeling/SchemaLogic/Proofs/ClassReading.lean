import SchemaLogic.Pattern.Grammar
import SchemaLogic.Proofs.ClassGrammar
import SchemaLogic.Proofs.CodeUnits
import SchemaLogic.Proofs.PatternSequence

/-! # How the matchers read a class -/
namespace SchemaLogic.Pattern

open Standard (skipSpacing_default)

def isClassMark (c : Char) : Bool := ['-', ']', '[', '&', '~'].contains c

theorem isClassMark_eq_false {c : Char} :
    isClassMark c = false ↔ c ≠ '-' ∧ c ≠ ']' ∧ c ≠ '[' ∧ c ≠ '&' ∧ c ≠ '~' := by
  simp [isClassMark]

/-- Inside of a class, a text is read as one character, whatever follows it. -/
structure Spells (cs : List Char) (n : Nat) : Prop where
  item : ∀ rest, classItem? {} (cs ++ rest) = some (.literal n, rest)
  start : ∃ c tail, cs = c :: tail ∧ isClassMark c = false

theorem spells_plain {c : Char} (h : isClassMark c = false) (hescape : c ≠ '\\') :
    Spells [c] c.toNat where
  item rest := by
    rw [List.singleton_append, classItem?]
    exact hescape
  start := ⟨c, [], rfl, h⟩

theorem spells_escape {cs : List Char} {n : Nat}
    (h : ∀ rest, escape? {} (cs ++ rest) = some (.literal n, rest)) : Spells ('\\' :: cs) n where
  item rest := h rest
  start := ⟨'\\', cs, rfl, rfl⟩

/-- A text before which a character stands for itself and starts no range. -/
def Calm (cs : List Char) : Prop := cs.head? ≠ some '-' ∨ cs = ['-']

/-! ## Ranges -/

theorem standIn_cases (unit : Nat) :
    standIn unit = unit ∧ (unit < 0xD800 ∨ 0xE000 ≤ unit) ∨
      standIn unit = 0x100000 + unit ∧ 0xD800 ≤ unit ∧ unit < 0xE000 := by
  by_cases h : unit < 0xD800 ∨ 0xE000 ≤ unit
  · exact .inl ⟨standIn_other h, h⟩
  · exact .inr ⟨standIn_surrogate (by omega) (by omega), by omega⟩

def Together (m n : Nat) : Prop := n < 0xD800 ∨ 0xD800 ≤ m ∧ n < 0xE000 ∨ 0xE000 ≤ m

theorem contains_range {m n unit : Nat} (h : Together m n) (horder : m ≤ n) (hn : n < 0x10000)
    (hunit : unit < 0x10000) :
    (CharSet.range (standIn m) (standIn n)).contains (standIn unit) =
      (decide (m ≤ unit) && decide (unit ≤ n)) := by
  have hm' := standIn_cases m
  have hn' := standIn_cases n
  have hu' := standIn_cases unit
  rw [CharSet.contains, Bool.eq_iff_iff]
  simp only [Bool.and_eq_true, decide_eq_true_eq]
  rw [Together] at h
  omega

theorem contains_single {n unit : Nat} (hn : n < 0x10000) (hunit : unit < 0x10000) :
    (CharSet.range (standIn n) (standIn n)).contains (standIn unit) = (unit == n) := by
  have together : Together n n := by
    rw [Together]
    omega
  rw [contains_range together (Nat.le_refl n) hn hunit, Bool.eq_iff_iff, Bool.and_eq_true,
    decide_eq_true_eq, decide_eq_true_eq, beq_iff_eq]
  omega

theorem contains_below {m n unit : Nat} (horder : m ≤ n) (hn : n < 0xD800)
    (hunit : unit < 0x10000) :
    (CharSet.range m n).contains (standIn unit) = (decide (m ≤ unit) && decide (unit ≤ n)) := by
  have range := contains_range (.inl hn) horder (by omega) hunit
  rwa [standIn_other (.inl (Nat.lt_of_le_of_lt horder hn)), standIn_other (.inl hn)] at range

theorem contains_from {m unit : Nat} (hm : m < 0xD800) (hunit : unit < 0x10000) :
    (CharSet.range m 0x10FFFF).contains (standIn unit) = decide (m ≤ unit) := by
  have hu' := standIn_cases unit
  rw [CharSet.contains, Bool.eq_iff_iff]
  simp only [Bool.and_eq_true, decide_eq_true_eq]
  omega

section Ranges

variable {cs ds rest : List Char} {m n : Nat}

theorem classRange?_alone (h : ∀ rest, classItem? {} (ds ++ rest) = some (.literal n, rest))
    (hcs : Calm cs) :
    classRange? {} (ds ++ (cs ++ ']' :: rest)) = some (.range n n, cs ++ ']' :: rest) := by
  have set : (Primitive.literal n).set? {} = some (.range n n) := rfl
  simp only [classRange?, h, skipSpacing_default, set, bind, Option.bind_some, Option.map_some]
  rcases hcs with hcs | rfl
  · cases cs with
    | nil => rfl
    | cons c cs =>
      have hc : c ≠ '-' := fun hc => hcs (hc ▸ rfl)
      simp [hc]
  · rfl

theorem classRange?_range {es : List Char} (hd : Spells ds m) (he : Spells es n) (h : m ≤ n) :
    classRange? {} (ds ++ ('-' :: (es ++ rest))) = some (.range m n, rest) := by
  have order : ¬n < m := Nat.not_lt.mpr h
  have item := he.item rest
  obtain ⟨c, tail, rfl, hc⟩ := he.start
  simp only [isClassMark_eq_false] at hc
  simp only [classRange?, hd.item, skipSpacing_default, bind, Option.bind_some]
  rw [List.cons_append] at item ⊢
  simp [hc, item, order]
  rfl

end Ranges

/-! ## Items of a class -/

theorem setOp?_of_plain {c : Char} (h : isClassMark c = false) (rest : List Char) :
    setOp? (c :: rest) = none := by
  obtain ⟨hyphen, -, -, ampersand, tilde⟩ := isClassMark_eq_false.mp h
  unfold setOp?
  split <;> simp_all

theorem setOp?_hyphen {cs rest : List Char} (h : cs.head? ≠ some '-') :
    setOp? ('-' :: (cs ++ ']' :: rest)) = none := by
  cases cs with
  | nil => rfl
  | cons c cs =>
    have hc : c ≠ '-' := fun hc => h (hc ▸ rfl)
    simp [setOp?, hc]

theorem classBody?_item {c : Char} {cs rest : List Char} {item : CharSet} (hopen : c ≠ '[')
    (hclose : c ≠ ']') (hop : setOp? (c :: cs) = none)
    (hitem : classRange? {} (c :: cs) = some (item, rest)) (fuel : Nat) (set : CharSet) :
    classBody? {} (fuel + 1) none set (c :: cs) =
      classBody? {} fuel none (.union set item) rest := by
  rw [classBody?, skipSpacing_default]
  simp [hopen, hclose, hop, hitem]

/-- Up to the closing bracket, a text adds code units to what the class holds before it. -/
def Adds (cs : List Char) (p : Nat → Bool) : Prop :=
  ∀ set, ∃ set', (∀ fuel rest, cs.length < fuel →
      classBody? {} fuel none set (cs ++ ']' :: rest) = some (set', rest)) ∧
    ∀ unit < 0x10000, set'.contains (standIn unit) = (set.contains (standIn unit) || p unit)

theorem adds_nil : Adds [] fun _ => false := by
  intro set
  refine ⟨set, fun fuel rest hfuel => ?_, fun unit _ => (Bool.or_false _).symm⟩
  obtain ⟨fuel, rfl⟩ := Nat.exists_eq_add_one_of_ne_zero (Nat.ne_zero_of_lt hfuel)
  rw [classBody?, skipSpacing_default]
  rfl

section Adding

variable {cs ds : List Char} {p : Nat → Bool}

theorem Adds.item {item : CharSet} {q : Nat → Bool}
    (step : ∀ fuel set rest, classBody? {} (fuel + 1) none set (ds ++ (cs ++ ']' :: rest)) =
      classBody? {} fuel none (.union set item) (cs ++ ']' :: rest))
    (hds : ds ≠ []) (hitem : ∀ unit < 0x10000, item.contains (standIn unit) = q unit)
    (hcs : Adds cs p) : Adds (ds ++ cs) fun unit => q unit || p unit := by
  intro set
  obtain ⟨set', reads, holds⟩ := hcs (.union set item)
  refine ⟨set', fun fuel rest hfuel => ?_, fun unit hunit => ?_⟩
  · have written := List.length_pos_iff.mpr hds
    rw [List.length_append] at hfuel
    obtain ⟨fuel, rfl⟩ := Nat.exists_eq_add_one_of_ne_zero (Nat.ne_zero_of_lt hfuel)
    rw [List.append_assoc, step, reads fuel rest (by omega)]
  · rw [holds unit hunit, CharSet.contains, hitem unit hunit, Bool.or_assoc]

theorem Adds.congr {q : Nat → Bool} (h : ∀ unit < 0x10000, p unit = q unit) (hcs : Adds cs p) :
    Adds cs q := by
  intro set
  obtain ⟨set', reads, holds⟩ := hcs set
  exact ⟨set', reads, fun unit hunit => by rw [holds unit hunit, h unit hunit]⟩

theorem Adds.character {n : Nat} {q : Nat → Bool} (h : Spells ds n) (hcalm : Calm cs)
    (hq : ∀ unit < 0x10000, (CharSet.range n n).contains (standIn unit) = q unit)
    (hcs : Adds cs p) : Adds (ds ++ cs) fun unit => q unit || p unit := by
  obtain ⟨c, tail, rfl, hc⟩ := h.start
  obtain ⟨-, hclose, hopen, -, -⟩ := isClassMark_eq_false.mp hc
  refine hcs.item (fun fuel set rest => ?_) (List.cons_ne_nil _ _) hq
  exact classBody?_item hopen hclose (setOp?_of_plain hc _) (classRange?_alone h.item hcalm) fuel
    set

theorem Adds.range {es : List Char} {m n : Nat} {q : Nat → Bool} (hd : Spells ds m)
    (he : Spells es n) (h : m ≤ n)
    (hq : ∀ unit < 0x10000, (CharSet.range m n).contains (standIn unit) = q unit)
    (hcs : Adds cs p) : Adds (ds ++ '-' :: (es ++ cs)) fun unit => q unit || p unit := by
  obtain ⟨c, tail, rfl, hc⟩ := hd.start
  obtain ⟨-, hclose, hopen, -, -⟩ := isClassMark_eq_false.mp hc
  rw [← List.cons_append, ← List.append_assoc]
  refine hcs.item (fun fuel set rest => ?_) (List.cons_ne_nil _ _) hq
  rw [List.append_assoc]
  exact classBody?_item hopen hclose (setOp?_of_plain hc _) (classRange?_range hd he h) fuel set

theorem Adds.hyphen (h : cs.head? ≠ some '-') (hcs : Adds cs p) :
    Adds ('-' :: cs) fun unit => unit == 0x2D || p unit := by
  have item (rest : List Char) : classRange? {} (['-'] ++ (cs ++ ']' :: rest)) =
      some (.range 0x2D 0x2D, cs ++ ']' :: rest) := classRange?_alone (fun _ => rfl) (.inl h)
  have step (fuel : Nat) (set : CharSet) (rest : List Char) :
      classBody? {} (fuel + 1) none set (['-'] ++ (cs ++ ']' :: rest)) =
        classBody? {} fuel none (.union set (.range 0x2D 0x2D)) (cs ++ ']' :: rest) :=
    classBody?_item (by decide) (by decide) (setOp?_hyphen h) (item rest) fuel set
  have single (unit : Nat) (hunit : unit < 0x10000) :
      (CharSet.range 0x2D 0x2D).contains (standIn unit) = (unit == 0x2D) :=
    contains_single (n := 0x2D) (by decide) hunit
  exact hcs.item step (List.cons_ne_nil _ _) single

/-! ## Escapes for sets -/

theorem spells_last : Spells "\\x\x7b10FFFF\x7d".toList 0x10FFFF := by
  have escape (rest : List Char) :
      escape? {} ("x\x7b10FFFF\x7d".toList ++ rest) = some (.literal 0x10FFFF, rest) := rfl
  exact spells_escape escape

theorem spells_zero : Spells "\\x00".toList 0 := by
  have escape (rest : List Char) :
      escape? {} ("x00".toList ++ rest) = some (.literal 0, rest) := rfl
  exact spells_escape escape

theorem spells_escaped {c : Char}
    (h : ∀ rest, escape? {} (c :: rest) = some (.literal c.toNat, rest)) :
    Spells ['\\', c] c.toNat := by
  have escape (rest : List Char) :
      escape? {} ([c] ++ rest) = some (.literal c.toNat, rest) := h rest
  exact spells_escape escape

theorem Adds.everything : Adds "\\x00-\\x\x7b10FFFF\x7d".toList fun _ => true :=
  (adds_nil.range spells_zero spells_last (by decide) fun _ => contains_from (by decide)).congr
    fun _ _ => rfl

theorem Adds.digit (hcs : Adds cs p) :
    Adds ("0-9".toList ++ cs) fun unit => isDigitUnit unit || p unit :=
  hcs.range (spells_plain (c := '0') rfl (by decide)) (spells_plain (c := '9') rfl (by decide))
    (by decide) fun _ => contains_below (by decide) (by decide)

theorem Adds.notDigit (hcs : Adds cs p) :
    Adds ("\\x00-/:-\\x\x7b10FFFF\x7d".toList ++ cs) fun unit => !isDigitUnit unit || p unit := by
  have above := hcs.range (spells_plain (c := ':') rfl (by decide)) spells_last (by decide)
    fun _ => contains_from (by decide)
  have below := above.range spells_zero (spells_plain (c := '/') rfl (by decide)) (by decide)
    fun _ => contains_below (by decide) (by decide)
  refine below.congr fun unit _ => ?_
  rw [← Bool.or_assoc]
  congr 1
  rw [Bool.eq_iff_iff]
  simp [isDigitUnit]
  omega

/-- The last of the ranges is a character alone, which a hyphen would continue. -/
theorem Adds.word (hcalm : Calm cs) (hcs : Adds cs p) :
    Adds ("0-9A-Za-z_".toList ++ cs) fun unit => isWordUnit unit || p unit := by
  have underscore := hcs.character (spells_plain (c := '_') rfl (by decide)) hcalm
    fun _ => contains_below (Nat.le_refl _) (by decide)
  have small := underscore.range (spells_plain (c := 'a') rfl (by decide))
    (spells_plain (c := 'z') rfl (by decide)) (by decide)
    fun _ => contains_below (by decide) (by decide)
  have capital := small.range (spells_plain (c := 'A') rfl (by decide))
    (spells_plain (c := 'Z') rfl (by decide)) (by decide)
    fun _ => contains_below (by decide) (by decide)
  refine capital.digit.congr fun unit _ => ?_
  simp only [← Bool.or_assoc]
  congr 1
  rw [Bool.eq_iff_iff]
  simp [isWordUnit, isDigitUnit]
  omega

theorem Adds.notWord (hcs : Adds cs p) :
    Adds ("\\x00-/:-@\\[-\\^`\\\x7b-\\x\x7b10FFFF\x7d".toList ++ cs)
      fun unit => !isWordUnit unit || p unit := by
  have above := hcs.range (spells_escaped (c := '\x7b') fun _ => rfl) spells_last (by decide)
    fun _ => contains_from (by decide)
  have quote := above.character (spells_plain (c := '`') rfl (by decide)) (.inl (by simp))
    fun _ => contains_below (Nat.le_refl _) (by decide)
  have brackets := quote.range (spells_escaped (c := '[') fun _ => rfl)
    (spells_escaped (c := '^') fun _ => rfl) (by decide)
    fun _ => contains_below (by decide) (by decide)
  have middle := brackets.range (spells_plain (c := ':') rfl (by decide))
    (spells_plain (c := '@') rfl (by decide)) (by decide)
    fun _ => contains_below (by decide) (by decide)
  have below := middle.range spells_zero (spells_plain (c := '/') rfl (by decide)) (by decide)
    fun _ => contains_below (by decide) (by decide)
  refine below.congr fun unit _ => ?_
  simp only [← Bool.or_assoc]
  congr 1
  rw [Bool.eq_iff_iff]
  simp [isWordUnit, isDigitUnit]
  omega

end Adding

/-! ## Whole classes -/

def hyphens : Nat → CharSet
  | 0 => .none
  | k + 1 => .union (.range 0x2D 0x2D) (hyphens k)

theorem contains_hyphens (k : Nat) {unit : Nat} (hunit : unit < 0x10000) :
    (hyphens k).contains (standIn unit) = (decide (0 < k) && unit == 0x2D) := by
  induction k with
  | zero => rfl
  | succ k ih =>
    rw [hyphens, CharSet.contains, ih, contains_below (Nat.le_refl _) (by decide) hunit,
      Bool.eq_iff_iff]
    simp
    omega

theorem leadingHyphens_replicate {cs : List Char} (h : cs.head? ≠ some '-') (k : Nat) :
    leadingHyphens {} (List.replicate k '-' ++ cs) = (hyphens k, cs) := by
  induction k with
  | zero =>
    rw [List.replicate_zero, List.nil_append]
    cases cs with
    | nil => rfl
    | cons c cs =>
      rw [leadingHyphens]
      · rfl
      · rintro rest heq
        exact h (congrArg List.head? heq)
  | succ k ih =>
    rw [List.replicate_succ, List.cons_append, leadingHyphens, ih]
    rfl

section Brackets

variable {fuel : Nat} {c : Char} {cs body rest : List Char} {opening set : CharSet}
  (hclose : c ≠ ']') (hleading : leadingHyphens {} (c :: cs) = (opening, body))
  (hbody : classBody? {} fuel none opening body = some (set, rest))
include hclose hleading hbody

theorem bracketed?_plain (hcaret : c ≠ '^') :
    bracketed? {} (fuel + 1) (c :: cs) = some (set, rest) := by
  rw [bracketed?]
  simp [hcaret, hclose, hleading, hbody]

theorem bracketed?_negated :
    bracketed? {} (fuel + 1) ('^' :: c :: cs) = some (.complement set, rest) := by
  rw [bracketed?]
  simp [hclose, hleading, hbody]

end Brackets

/-- A class of hyphens and a text that adds code units, after its opening bracket. The first
character opens no negation and does not close the class. -/
theorem charClass?_eq {cs : List Char} {p : Nat → Bool} {k : Nat} (negated : Bool)
    (hcs : Adds cs p) (hhead : cs.head? ≠ some '-') {c : Char} {tail : List Char}
    (hfirst : List.replicate k '-' ++ cs = c :: tail) (hclose : c ≠ ']')
    (hcaret : negated = false → c ≠ '^') :
    ∃ set, (∀ rest, charClass? {} (caret negated ++ (List.replicate k '-' ++ cs) ++ ']' :: rest) =
        some (set, rest)) ∧
      ∀ unit < 0x10000, set.contains (standIn unit) =
        ((decide (0 < k) && unit == 0x2D || p unit) != negated) := by
  obtain ⟨set, reads, holds⟩ := hcs (hyphens k)
  have leading (rest : List Char) : leadingHyphens {} (c :: (tail ++ ']' :: rest)) =
      (hyphens k, cs ++ ']' :: rest) := by
    rw [← List.cons_append, ← hfirst, List.append_assoc]
    refine leadingHyphens_replicate ?_ k
    cases cs with
    | nil => simp
    | cons d ds => exact hhead
  have length : cs.length ≤ tail.length + 1 := by
    rw [← List.length_cons, ← hfirst, List.length_append]
    exact Nat.le_add_left _ _
  refine ⟨if negated then .complement set else set, fun rest => ?_, fun unit hunit => ?_⟩
  · rw [charClass?, hfirst]
    cases negated with
    | false =>
      refine bracketed?_plain hclose (leading rest) (reads _ rest ?_) (hcaret rfl)
      simp
      omega
    | true =>
      refine bracketed?_negated hclose (leading rest) (reads _ rest ?_)
      simp
      omega
  · cases negated <;> simp [CharSet.contains, holds unit hunit, contains_hyphens k hunit]

end SchemaLogic.Pattern
