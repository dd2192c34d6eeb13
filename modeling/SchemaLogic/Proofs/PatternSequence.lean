import SchemaLogic.Pattern.Standard

/-! # Patterns that are sequences of pieces

A text that the standard grammar reads piece by piece, each piece whatever follows it, is read as
the sequence of the pieces. A sequence is found in a text if its pieces can be passed one after
another, which for literal characters means that the text spells them. -/
namespace SchemaLogic

/-! ## Matching a sequence -/

namespace Regex

variable {s : Subject} {m m' : Mark}

def Passes (s : Subject) : List Regex → Mark → Mark → Prop
  | [], m, m' => m' = m
  | e :: es, m, m' => ∃ next ∈ e.outcomes s false m, Passes s es next m'

theorem mem_outcomes_seq {a b : Regex} :
    m' ∈ (Regex.seq a b).outcomes s false m ↔
      ∃ next ∈ a.outcomes s false m, m' ∈ b.outcomes s false next := by
  simp only [outcomes, Bool.false_and, kept, Bool.false_eq_true, if_false, List.mem_eraseDups,
    List.mem_flatMap]

theorem mem_outcomes_concat {es : List Regex} (h : ∀ e ∈ es, e.isSeq = false) :
    m' ∈ (Pattern.concat es).outcomes s false m ↔ Passes s es m m' := by
  fun_induction Pattern.concat es generalizing m with
  | case1 => simp [outcomes, Passes]
  | case2 r => simp [Passes]
  | case3 a b =>
    rw [h b (by simp), if_neg (by decide), mem_outcomes_seq]
    simp [Passes]
  | case4 r rs _ _ ih =>
    rw [mem_outcomes_seq, Passes]
    refine exists_congr fun next => and_congr_right fun _ => ?_
    exact ih fun e he => h e (List.mem_cons_of_mem _ he)

theorem search_iff {r : Regex} {text : List Nat} :
    r.search text = true ↔ ∃ start ≤ text.length, ∃ m',
      m' ∈ r.outcomes ⟨text.toArray, r.references⟩ false ⟨start, []⟩ := by
  simp only [search, List.any_eq_true, List.mem_range, List.size_toArray, Nat.lt_succ_iff,
    Bool.not_eq_true', List.isEmpty_eq_false_iff_exists_mem]

theorem search_char {set : CharSet} {text : List Nat} :
    (Regex.char set).search text = text.any set.contains := by
  rw [Bool.eq_iff_iff, search_iff, List.any_eq_true]
  simp only [outcomes, List.getElem?_toArray]
  constructor
  · rintro ⟨start, -, m', hm⟩
    split at hm
    · next n hn =>
      split at hm
      · next hset => exact ⟨n, List.mem_of_getElem? hn, hset⟩
      · cases hm
    · cases hm
  · rintro ⟨n, hn, hset⟩
    obtain ⟨start, hstart⟩ := List.mem_iff_getElem?.mp hn
    obtain ⟨hlt, -⟩ := List.getElem?_eq_some_iff.mp hstart
    refine ⟨start, Nat.le_of_lt hlt, ⟨start + 1, []⟩, ?_⟩
    rw [hstart]
    simp only [hset, if_true]
    exact List.mem_singleton_self _

def literals (ns : List Nat) : List Regex := ns.map fun n => .char (.single n)

/-- Literals at the start of a text and, if closed, up to its end. -/
def anchored (closed : Bool) (ns : List Nat) : List Regex :=
  .anchor .textStart :: (literals ns ++ if closed then [.anchor .textEnd] else [])

theorem isSeq_literals {ns : List Nat} : ∀ e ∈ literals ns, e.isSeq = false := by
  intro e he
  obtain ⟨n, -, rfl⟩ := List.mem_map.mp he
  rfl

theorem isSeq_anchored {closed : Bool} {ns : List Nat} :
    ∀ e ∈ anchored closed ns, e.isSeq = false := by
  intro e he
  rcases List.mem_cons.mp he with rfl | he
  · rfl
  · rcases List.mem_append.mp he with he | he
    · exact isSeq_literals e he
    · cases closed with
      | false => cases he
      | true => rw [List.mem_singleton.mp he]; rfl

section Literals

variable {text ns : List Nat} {referenced : List Nat}

theorem passes_literals {es : List Regex} {position : Nat} {captures : List Capture} :
    Passes ⟨text.toArray, referenced⟩ (literals ns ++ es) ⟨position, captures⟩ m' ↔
      ns <+: text.drop position ∧
        Passes ⟨text.toArray, referenced⟩ es ⟨position + ns.length, captures⟩ m' := by
  induction ns generalizing position with
  | nil => simp [literals]
  | cons n ns ih =>
    change (∃ next ∈ (Regex.char (.single n)).outcomes _ false ⟨position, captures⟩,
      Passes _ (literals ns ++ es) next m') ↔ _
    simp only [outcomes, List.getElem?_toArray]
    cases hk : text[position]? with
    | none =>
      have short : text.drop position = [] :=
        List.drop_eq_nil_of_le (List.getElem?_eq_none_iff.mp hk)
      simp [short]
    | some k =>
      obtain ⟨hlt, rfl⟩ := List.getElem?_eq_some_iff.mp hk
      rw [List.drop_eq_getElem_cons hlt, List.cons_prefix_cons, List.length_cons]
      by_cases heq : n = text[position]
      · subst heq
        simp [CharSet.single, CharSet.contains, Mark.move, ih, Nat.add_assoc, Nat.add_comm 1]
      · have absent : (CharSet.single n).contains text[position] = false := by
          simp [CharSet.single, CharSet.contains]
          omega
        simp [absent, heq]

theorem passes_anchored {closed : Bool} {start : Nat} :
    (∃ m', Passes ⟨text.toArray, referenced⟩ (anchored closed ns) ⟨start, []⟩ m') ↔
      start = 0 ∧ ns <+: text ∧ (closed = true → ns = text) := by
  have whole (h : ns <+: text) : ns.length = text.length ↔ ns = text :=
    ⟨h.eq_of_length, congrArg List.length⟩
  simp only [anchored, Passes, outcomes, Anchor.holds, beq_iff_eq]
  by_cases hstart : start = 0
  · subst hstart
    simp only [if_true, List.mem_singleton, exists_eq_left, passes_literals, List.drop_zero,
      Nat.zero_add, exists_and_left, true_and]
    refine and_congr_right fun hprefix => ?_
    cases closed with
    | false => simp [Passes]
    | true =>
      rw [← whole hprefix]
      by_cases hlength : ns.length = text.length <;> simp [Passes, outcomes, Anchor.holds, hlength]
  · simp [hstart]

/-- Literals at the start are found in the texts that start with them, and up to the end in no
other text than their own. -/
theorem search_anchored {closed : Bool} :
    (Pattern.concat (anchored closed ns)).search text = true ↔
      ns <+: text ∧ (closed = true → ns = text) := by
  simp only [search_iff, mem_outcomes_concat isSeq_anchored, passes_anchored]
  exact ⟨fun h => h.choose_spec.2.2, fun h => ⟨0, Nat.zero_le _, rfl, h⟩⟩

end Literals

end Regex

/-! ## Reading a sequence -/

namespace Pattern.Standard

@[simp] theorem skipSpacing_default (cs : List Char) : skipSpacing {} cs = cs := by
  cases cs <;> simp [skipSpacing]

/-- A text is read as one piece of a pattern, whatever follows it. -/
structure Reads (cs : List Char) (e : Regex) : Prop where
  written : cs ≠ []
  step : ∀ fuel done repeatable groups names numbered rest,
    pieces? (fuel + 1) done repeatable ⟨cs ++ rest, {}, groups, names, numbered⟩ =
      pieces? fuel (e :: done) true ⟨rest, {}, groups, names, numbered⟩

def isOperator (c : Char) : Bool :=
  ['|', '(', ')', '[', '\\', '^', '$', '.', '*', '+', '?', '\x7b'].contains c

theorem reads_literal {c : Char} (h : isOperator c = false) :
    Reads [c] (.char (.single c.toNat)) where
  written := List.cons_ne_nil _ _
  step fuel done repeatable groups names numbered rest := by
    simp only [isOperator, List.contains_cons, List.contains_nil, Bool.or_false,
      Bool.or_eq_false_iff, beq_eq_false_iff_ne] at h
    rw [pieces?]
    simp only [skipSpacing_default, List.singleton_append]
    split <;> simp_all [Flags.literal, Flags.set, Reader.skip]

theorem reads_escape {cs : List Char} {n : Nat}
    (h : ∀ rest, escape? {} (cs ++ rest) = some (.literal n, rest)) :
    Reads ('\\' :: cs) (.char (.single n)) where
  written := List.cons_ne_nil _ _
  step fuel done repeatable groups names numbered rest := by
    rw [pieces?]
    simp only [skipSpacing_default, List.cons_append, h]
    rfl

theorem reads_class {cs : List Char} {set : CharSet}
    (h : ∀ rest, charClass? {} (cs ++ rest) = some (set, rest)) :
    Reads ('[' :: cs) (.char set) where
  written := List.cons_ne_nil _ _
  step fuel done repeatable groups names numbered rest := by
    rw [pieces?]
    simp only [skipSpacing_default, List.cons_append, h]
    rfl

theorem reads_start : Reads ['^'] (.anchor .textStart) where
  written := List.cons_ne_nil _ _
  step fuel done repeatable groups names numbered rest := by
    rw [pieces?]
    simp only [skipSpacing_default, List.singleton_append]
    rfl

theorem reads_end : Reads ['$'] (.anchor .textEnd) where
  written := List.cons_ne_nil _ _
  step fuel done repeatable groups names numbered rest := by
    rw [pieces?]
    simp only [skipSpacing_default, List.singleton_append]
    rfl

inductive ReadsAll : List Char → List Regex → Prop where
  | nil : ReadsAll [] []
  | cons {cs rest : List Char} {e : Regex} {es : List Regex} (head : Reads cs e)
    (tail : ReadsAll rest es) : ReadsAll (cs ++ rest) (e :: es)

namespace ReadsAll

variable {cs : List Char} {es : List Regex}

theorem append {ds : List Char} {fs : List Regex} (h : ReadsAll cs es) (h' : ReadsAll ds fs) :
    ReadsAll (cs ++ ds) (es ++ fs) := by
  induction h with
  | nil => exact h'
  | cons head _ ih =>
    rw [List.append_assoc]
    exact .cons head ih

theorem length_le (h : ReadsAll cs es) : es.length ≤ cs.length := by
  induction h with
  | nil => exact Nat.le_refl _
  | cons head _ ih =>
    have written := List.length_pos_iff.mpr head.written
    rw [List.length_append, List.length_cons]
    omega

theorem pieces?_eq (h : ReadsAll cs es) {fuel : Nat} (hfuel : es.length < fuel) (done : List Regex)
    (repeatable : Bool) (groups : Nat) (names : List (String × Nat)) (numbered : Bool) :
    pieces? fuel done repeatable ⟨cs, {}, groups, names, numbered⟩ =
      some (concat (done.reverse ++ es), ⟨[], {}, groups, names, numbered⟩) := by
  induction h generalizing fuel done repeatable with
  | nil =>
    obtain ⟨fuel, rfl⟩ := Nat.exists_eq_add_one_of_ne_zero (Nat.ne_zero_of_lt hfuel)
    rw [pieces?]
    simp only [Reader.skip, skipSpacing_default, List.append_nil]
  | cons head _ ih =>
    obtain ⟨fuel, rfl⟩ := Nat.exists_eq_add_one_of_ne_zero (Nat.ne_zero_of_lt hfuel)
    rw [head.step, ih (Nat.lt_of_succ_lt_succ hfuel), List.reverse_cons, List.append_assoc,
      List.singleton_append]

theorem parse?_eq (h : ReadsAll cs es) : parse? cs = some (concat es) := by
  have hlength := h.length_le
  have pieces : pieces? (2 * cs.length + 3) [] false { rest := cs } =
      some (concat es, { rest := [] }) := h.pieces?_eq (by omega) [] false 0 [] false
  simp only [parse?, alternatives?, pieces, List.isEmpty_nil, if_true]

end ReadsAll

end Pattern.Standard

end SchemaLogic
