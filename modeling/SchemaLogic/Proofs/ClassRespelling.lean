import SchemaLogic.Proofs.ClassReading
import SchemaLogic.Proofs.SpelledText

/-! # Classes keep their meaning

A class of ECMA-262, respelled for the matchers, matches the same code units as long as the matchers
read its hyphens the same way and no range runs into the surrogates. Past the hyphens that open a
class the matchers take two hyphens for an operator, and the spelling of an escape can end in a
character that a hyphen continues to a range. -/
namespace SchemaLogic.Pattern

/-! ## Hyphens that are read alike -/

/-- What stands before an item of a respelled class: hyphens only, something that no hyphen
continues, a character from which a hyphen would start a range, or a hyphen that stands for
itself. -/
inductive Place where
  | opening
  | settled
  | character
  | hyphen
  deriving DecidableEq, Repr

/-- What an atom leaves before the next item. The spelling of `\w` ends in an underscore. -/
def ClassAtom.place : ClassAtom → Place
  | .hyphen => .hyphen
  | .unit _ => .character
  | .word false => .character
  | _ => .settled

theorem ClassAtom.place_ne_opening (a : ClassAtom) : a.place ≠ .opening := by
  cases a with
  | hyphen | unit => exact Place.noConfusion
  | digit negated | word negated => cases negated <;> exact Place.noConfusion

theorem ClassAtom.ne_hyphen {a : ClassAtom} (set : a.value? = none) : a ≠ .hyphen := by
  rintro rfl
  cases set

inductive Kept : Place → List ClassItem → Prop where
  | nil {place : Place} : Kept place []
  | trailing {place : Place} (single : place ≠ .hyphen) : Kept place [.single .hyphen]
  | hyphen {items : List ClassItem} (rest : Kept .hyphen items) :
    Kept .settled (.single .hyphen :: items)
  | opening {items : List ClassItem} (rest : Kept .opening items) :
    Kept .opening (.single .hyphen :: items)
  | openingRange {items : List ClassItem} (rest : Kept .opening items) :
    Kept .opening (.span .hyphen .hyphen :: items)
  | openingSet {a : ClassAtom} {items : List ClassItem} (set : a.value? = none)
    (rest : Kept a.place items) : Kept .opening (.span .hyphen a :: items)
  | atom {place : Place} {a : ClassAtom} {items : List ClassItem} (bare : a ≠ .hyphen)
    (rest : Kept a.place items) : Kept place (.single a :: items)
  | range {place : Place} {m n : Nat} {items : List ClassItem} (together : Together m n)
    (rest : Kept .settled items) : Kept place (.span (.unit m) (.unit n) :: items)
  | union {place : Place} {a b : ClassAtom} {items : List ClassItem} (set : a.value? = none)
    (word : a ≠ .word false) (bare : b ≠ .hyphen) (rest : Kept b.place items) :
    Kept place (.span a b :: items)

/-! ## Spelled atoms and items -/

def ClassAtom.Spelled : ClassAtom → List Char → Prop
  | .hyphen, cs => cs = ['-']
  | .unit n, cs => n < 0x10000 ∧ Spells cs (standIn n)
  | .digit false, cs => cs = "0-9".toList
  | .digit true, cs => cs = "\\x00-/:-\\x\x7b10FFFF\x7d".toList
  | .word false, cs => cs = "0-9A-Za-z_".toList
  | .word true, cs => cs = "\\x00-/:-@\\[-\\^`\\\x7b-\\x\x7b10FFFF\x7d".toList

namespace ClassAtom.Spelled

variable {a : ClassAtom} {cs ds : List Char} {p : Nat → Bool}

theorem start (h : a.Spelled ds) (ha : a ≠ .hyphen) :
    ∃ c tail, ds = c :: tail ∧ isClassMark c = false := by
  cases a with
  | hyphen => exact absurd rfl ha
  | unit n => exact h.2.start
  | digit negated => cases negated <;> cases h <;> exact ⟨_, _, rfl, rfl⟩
  | word negated => cases negated <;> cases h <;> exact ⟨_, _, rfl, rfl⟩

theorem head_ne (h : a.Spelled ds) (ha : a ≠ .hyphen) (cs : List Char) :
    (ds ++ cs).head? ≠ some '-' := by
  obtain ⟨c, tail, rfl, hc⟩ := h.start ha
  intro heq
  exact (isClassMark_eq_false.mp hc).1 (Option.some.inj heq)

theorem adds (h : a.Spelled ds) (ha : a ≠ .hyphen) (hcalm : a.place = .character → Calm cs)
    (hcs : Adds cs p) : Adds (ds ++ cs) fun unit => a.contains unit || p unit := by
  cases a with
  | hyphen => exact absurd rfl ha
  | unit n => exact hcs.character h.2 (hcalm rfl) fun _ => contains_single h.1
  | digit negated =>
    cases negated with
    | false =>
      cases h
      exact hcs.digit.congr fun unit _ => by simp [contains]
    | true =>
      cases h
      exact hcs.notDigit.congr fun unit _ => by simp [contains]
  | word negated =>
    cases negated with
    | false =>
      cases h
      exact (hcs.word (hcalm rfl)).congr fun unit _ => by simp [contains]
    | true =>
      cases h
      exact hcs.notWord.congr fun unit _ => by simp [contains]

end ClassAtom.Spelled

inductive SpelledItems : List ClassItem → List Char → Prop where
  | nil : SpelledItems [] []
  | single {a : ClassAtom} {items : List ClassItem} {cs ds : List Char} (head : a.Spelled ds)
    (tail : SpelledItems items cs) : SpelledItems (.single a :: items) (ds ++ cs)
  | span {a b : ClassAtom} {items : List ClassItem} {cs ds es : List Char} (first : a.Spelled ds)
    (last : b.Spelled es) (tail : SpelledItems items cs) :
    SpelledItems (.span a b :: items) (ds ++ '-' :: (es ++ cs))

theorem standIn_le {m n : Nat} (h : Together m n) (horder : m ≤ n) : standIn m ≤ standIn n := by
  have hm := standIn_cases m
  have hn := standIn_cases n
  rw [Together] at h
  omega

theorem ClassItem.contains_span {a b : ClassAtom} (h : a.value? = none ∨ b.value? = none)
    (unit : Nat) :
    (ClassItem.span a b).contains unit = (a.contains unit || b.contains unit || unit == 0x2D) := by
  rw [contains]
  rcases h with h | h <;> rw [h]
  cases a.value? <;> rfl

/-- Past the opening of a class, items that are read alike add their code units. -/
theorem Kept.adds {place : Place} {items : List ClassItem} {cs : List Char} (h : Kept place items)
    (hplace : place ≠ .opening) (hspelled : SpelledItems items cs)
    (hordered : ∀ item ∈ items, item.isOrdered = true) :
    Adds cs (fun unit => items.any (·.contains unit)) ∧ (place = .character → Calm cs) ∧
      (place = .hyphen → cs.head? ≠ some '-') := by
  induction h generalizing cs with
  | nil =>
    cases hspelled
    exact ⟨adds_nil, fun _ => .inl (by simp), fun _ => by simp⟩
  | trailing single =>
    cases hspelled with
    | single head tail =>
      cases head
      cases tail
      refine ⟨(adds_nil.hyphen (by simp)).congr fun unit _ => ?_, fun _ => .inr rfl, fun h => ?_⟩
      · simp [ClassItem.contains, ClassAtom.contains]
      · exact absurd h single
  | hyphen rest ih =>
    cases hspelled with
    | single head tail =>
      cases head
      obtain ⟨adds, -, apart⟩ := ih (by decide) tail (List.forall_mem_cons.mp hordered).2
      refine ⟨(adds.hyphen (apart rfl)).congr fun unit _ => ?_, fun h => ?_, fun h => ?_⟩
      · simp [ClassItem.contains, ClassAtom.contains]
      · cases h
      · cases h
  | opening | openingRange | openingSet => exact absurd rfl hplace
  | @atom place a items bare rest ih =>
    cases hspelled with
    | single head tail =>
      obtain ⟨adds, calm, -⟩ := ih a.place_ne_opening tail (List.forall_mem_cons.mp hordered).2
      have start := head.head_ne bare
      exact ⟨head.adds bare calm adds, fun _ => .inl (start _), fun _ => start _⟩
  | @range place m n items together rest ih =>
    cases hspelled with
    | span first last tail =>
      obtain ⟨hitem, hitems⟩ := List.forall_mem_cons.mp hordered
      obtain ⟨adds, -, -⟩ := ih (by decide) tail hitems
      have order : m ≤ n := by simpa [ClassItem.isOrdered, ClassAtom.value?] using hitem
      have start := first.head_ne (by simp)
      have range := adds.range first.2 last.2 (standIn_le together order)
        fun _ => contains_range together order last.1
      exact ⟨range, fun _ => .inl (start _), fun _ => start _⟩
  | @union place a b items set word bare rest ih =>
    cases hspelled with
    | span first last tail =>
      obtain ⟨adds, calm, -⟩ := ih b.place_ne_opening tail (List.forall_mem_cons.mp hordered).2
      have named := ClassAtom.ne_hyphen set
      have settled : a.place ≠ .character := by
        cases a with
        | hyphen | unit => cases set
        | digit negated => cases negated <;> exact Place.noConfusion
        | word negated =>
          cases negated with
          | false => exact absurd rfl word
          | true => exact Place.noConfusion
      have start := first.head_ne named
      have middle := (last.adds bare calm adds).hyphen (last.head_ne bare _)
      have whole := first.adds named (fun h => absurd h settled) middle
      refine ⟨whole.congr fun unit _ => ?_, fun _ => .inl (start _), fun _ => start _⟩
      rw [List.any_cons, ClassItem.contains_span (.inl set)]
      ac_rfl

/-- A text starts with hyphens that stand for themselves, and what follows them adds the other code
units. -/
def Opens (cs : List Char) (p : Nat → Bool) : Prop :=
  ∃ count rest q, cs = List.replicate count '-' ++ rest ∧ rest.head? ≠ some '-' ∧ Adds rest q ∧
    ∀ unit, p unit = (decide (0 < count) && unit == 0x2D || q unit)

theorem Opens.hyphen {cs : List Char} {p : Nat → Bool} (h : Opens cs p) :
    Opens ('-' :: cs) fun unit => unit == 0x2D || p unit := by
  obtain ⟨count, rest, q, rfl, hhead, hadds, hp⟩ := h
  refine ⟨count + 1, rest, q, rfl, hhead, hadds, fun unit => ?_⟩
  cases hu : unit == 0x2D <;> simp [hp, hu]

theorem Opens.congr {cs : List Char} {p q : Nat → Bool} (h : Opens cs p)
    (heq : ∀ unit, q unit = p unit) : Opens cs q := by
  obtain ⟨count, rest, r, htext, hhead, hadds, hp⟩ := h
  exact ⟨count, rest, r, htext, hhead, hadds, fun unit => (heq unit).trans (hp unit)⟩

theorem Adds.opens {cs : List Char} {p : Nat → Bool} (h : Adds cs p)
    (hhead : cs.head? ≠ some '-') : Opens cs p :=
  ⟨0, cs, p, rfl, hhead, h, fun _ => rfl⟩

theorem Kept.opens_of_hyphen {items : List ClassItem} {cs : List Char} (h : Kept .hyphen items)
    (hspelled : SpelledItems items cs) (hordered : ∀ item ∈ items, item.isOrdered = true) :
    Opens cs fun unit => items.any (·.contains unit) := by
  obtain ⟨adds, -, apart⟩ := h.adds (by decide) hspelled hordered
  exact adds.opens (apart rfl)

theorem Kept.opens {place : Place} {items : List ClassItem} {cs : List Char} (h : Kept place items)
    (hplace : place = .opening) (hspelled : SpelledItems items cs)
    (hordered : ∀ item ∈ items, item.isOrdered = true) :
    Opens cs fun unit => items.any (·.contains unit) := by
  induction h generalizing cs with
  | nil => exact Kept.nil.opens_of_hyphen hspelled hordered
  | trailing =>
    cases hspelled with
    | single head tail =>
      cases head
      cases tail
      exact (adds_nil.opens (by simp)).hyphen
  | hyphen => cases hplace
  | opening rest ih =>
    cases hspelled with
    | single head tail =>
      cases head
      exact (ih rfl tail (List.forall_mem_cons.mp hordered).2).hyphen
  | openingRange rest ih =>
    cases hspelled with
    | span first last tail =>
      cases first
      cases last
      have opens := ih rfl tail (List.forall_mem_cons.mp hordered).2
      refine opens.hyphen.hyphen.hyphen.congr fun unit => ?_
      have same : (decide (0x2D ≤ unit) && decide (unit ≤ 0x2D)) = (unit == 0x2D) := by
        rw [Bool.eq_iff_iff]
        simp only [Bool.and_eq_true, decide_eq_true_eq, beq_iff_eq]
        omega
      simp [ClassItem.contains, ClassAtom.value?, same]
  | @openingSet a items set rest ih =>
    cases hspelled with
    | span first last tail =>
      cases first
      have bare := ClassAtom.ne_hyphen set
      obtain ⟨adds, calm, -⟩ := rest.adds a.place_ne_opening tail
        (List.forall_mem_cons.mp hordered).2
      have opens := (last.adds bare calm adds).opens (last.head_ne bare _)
      refine opens.hyphen.hyphen.congr fun unit => ?_
      rw [List.any_cons, ClassItem.contains_span (.inr set), ClassAtom.contains]
      cases unit == 0x2D <;> simp
  | atom bare rest => exact (Kept.atom bare rest).opens_of_hyphen hspelled hordered
  | range together rest => exact (Kept.range together rest).opens_of_hyphen hspelled hordered
  | union set word bare rest =>
    exact (Kept.union set word bare rest).opens_of_hyphen hspelled hordered

end SchemaLogic.Pattern
