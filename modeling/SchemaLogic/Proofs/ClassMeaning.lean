import SchemaLogic.Proofs.ClassRespelling

/-! # What a respelled class matches

The text between the brackets of a class is respelled atom by atom, and the matchers read the
respelled class as the set of the code units that the class matches. -/
namespace SchemaLogic.Pattern

open Standard

/-! ## Atoms respelled -/

inductive SpelledAtoms : List ClassAtom → List Char → Prop where
  | nil : SpelledAtoms [] []
  | cons {a : ClassAtom} {atoms : List ClassAtom} {cs ds : List Char} (head : a.Spelled ds)
    (tail : SpelledAtoms atoms cs) : SpelledAtoms (a :: atoms) (ds ++ cs)

theorem SpelledAtoms.single {a : ClassAtom} {cs : List Char} (h : a.Spelled cs) :
    SpelledAtoms [a] cs :=
  List.append_nil cs ▸ .cons h .nil

theorem SpelledAtoms.append {as bs : List ClassAtom} {cs ds : List Char} (h : SpelledAtoms as cs)
    (h' : SpelledAtoms bs ds) : SpelledAtoms (as ++ bs) (cs ++ ds) := by
  induction h with
  | nil => exact h'
  | cons head _ ih =>
    rw [List.append_assoc]
    exact .cons head ih

theorem Derives.spelled {rule : ClassRule} {atoms : List ClassAtom} {items : List ClassItem}
    {cs : List Char} (h : Derives rule atoms items) (hatoms : SpelledAtoms atoms cs) :
    SpelledItems items cs := by
  induction h generalizing cs with
  | empty =>
    cases hatoms
    exact .nil
  | ranges _ ih => exact ih hatoms
  | atom a _ =>
    cases hatoms with
    | cons head tail =>
      cases tail
      exact .single head .nil
  | next _ _ _ ih =>
    cases hatoms with
    | cons head tail => exact .single head (ih tail)
  | span b _ _ _ ih =>
    cases hatoms with
    | cons first tail =>
      cases tail with
      | cons dash tail =>
        cases tail with
        | cons last tail =>
          cases dash
          have whole := SpelledItems.span first last (ih tail)
          exact whole

/-- A spelling does not close the class, and it negates the class only where its source does. -/
def Begins (spelling source : List Char) : Prop :=
  ∃ c tail, spelling = c :: tail ∧ c ≠ ']' ∧ (c = '^' → source.head? = some '^')

theorem begins_of_ne {c : Char} {tail source : List Char} (hclose : c ≠ ']') (hcaret : c ≠ '^') :
    source ≠ [] → Begins (c :: tail) source :=
  fun _ => ⟨c, tail, rfl, hclose, fun h => absurd h hcaret⟩

/-- Inside of a class a text is respelled, whatever follows it, as the spelling of atoms. -/
structure Respells (source : List Char) (atoms : List ClassAtom) (spelling : List Char) : Prop where
  spelled : SpelledAtoms atoms spelling
  begins : source ≠ [] → Begins spelling source
  respelled : ∀ boundary rest, respellAt false boundary true (source ++ rest) =
    spelling ++ respellAt false boundary true rest

theorem Respells.append {first second : List Char} {as bs : List ClassAtom} {cs ds : List Char}
    (h : Respells first as cs) (hfirst : first ≠ []) (h' : Respells second bs ds) :
    Respells (first ++ second) (as ++ bs) (cs ++ ds) where
  spelled := h.spelled.append h'.spelled
  begins _ := by
    obtain ⟨c, tail, rfl, hclose, hcaret⟩ := h.begins hfirst
    refine ⟨c, tail ++ ds, rfl, hclose, fun hc => ?_⟩
    rw [List.head?_append, hcaret hc]
    rfl
  respelled boundary rest := by
    rw [List.append_assoc, h.respelled, h'.respelled, List.append_assoc]

theorem spelled_scalarEscape {unit : Nat} (h : 0xD800 ≤ unit) (h' : unit < 0xE000) :
    (ClassAtom.unit unit).Spelled (scalarEscape (surrogateBase + unit)) := by
  refine ⟨by omega, ?_⟩
  rw [standIn_surrogate h h']
  exact spells_escape (escape?_scalar (isValidChar_surrogate h h'))

section Characters

variable {c : Char}

theorem spelled_character (h : isClassMark c = false) (hescape : c ≠ '\\') :
    SpelledAtoms ((Text.unitsOf c).map .unit) (spellChar false c) := by
  have bounds := toNat_cases c
  rw [Text.unitsOf, spellChar]
  by_cases hsingle : c.toNat ≤ 0xFFFF
  · rw [if_pos hsingle, if_pos (by simpa using hsingle)]
    refine .single ⟨by omega, ?_⟩
    rw [standIn_other (by omega)]
    exact spells_plain h hescape
  · rw [if_neg hsingle, if_neg (by simpa using hsingle), Text.unitsOf, if_neg hsingle]
    exact .cons (spelled_scalarEscape (by omega) (by omega))
      (.cons (spelled_scalarEscape (by omega) (by omega)) .nil)

theorem begins_character (h : c ≠ ']') {source : List Char}
    (hsource : c = '^' → source.head? = some '^') :
    source ≠ [] → Begins (spellChar false c) source := by
  rw [spellChar]
  split
  · exact fun _ => ⟨c, [], rfl, h, hsource⟩
  · next beyond =>
    rw [Text.unitsOf, if_neg (by simpa using beyond), List.flatMap_cons, scalarEscape]
    exact begins_of_ne (by decide) (by decide)

theorem spelled_escaped (hascii : c.toNat < 0x80)
    (h : ∀ rest, escape? {} (c :: rest) = some (.literal c.toNat, rest)) :
    SpelledAtoms ((Text.unitsOf c).map .unit) ['\\', c] := by
  rw [Text.unitsOf, if_pos (by omega)]
  refine .single ⟨by omega, ?_⟩
  rw [standIn_other (by omega)]
  exact spells_escaped h

theorem escape?_punctuation (hword : c.isAlphanum = false) (hangle : ¬(c = '<' ∨ c = '>'))
    (hascii : c.toNat < 0x80) (rest : List Char) :
    escape? {} (c :: rest) = some (.literal c.toNat, rest) := by
  have inside : ¬0x7F < c.toNat := by omega
  have control : controlEscape? c = none := by
    unfold controlEscape?
    split <;> try exact absurd hword (by decide)
    rfl
  rw [not_or] at hangle
  rw [escape?, control]
  · simp [hword, hangle, inside]
  all_goals
    rintro rfl
    exact absurd hword (by decide)

theorem respells_plain (hescape : c ≠ '\\') (hclose : c ≠ ']') :
    ∃ spelling, Respells [c] (plainAtoms c) spelling := by
  by_cases hmark : isClassMark c = true
  · -- A hyphen is kept, and what would open another class or an operator is escaped.
    have marks : c = '-' ∨ c = '[' ∨ c = '&' ∨ c = '~' := by
      simpa [isClassMark, hclose] using hmark
    rcases marks with rfl | rfl | rfl | rfl
    · exact ⟨['-'], .single rfl, begins_of_ne (by decide) (by decide), fun _ => respellAt_plain rfl⟩
    all_goals
      exact ⟨_, spelled_escaped (by decide) fun _ => rfl, begins_of_ne (by decide) (by decide),
        fun _ => respellAt_cons _⟩
  · rw [Bool.not_eq_true] at hmark
    obtain ⟨hyphen, -, opening, ampersand, tilde⟩ := isClassMark_eq_false.mp hmark
    have plain : isMarked true c = false := by
      simp [isMarked, hescape, hclose, opening, ampersand, tilde]
    refine ⟨spellChar false c, ?_, ?_, fun _ => respellAt_plain plain⟩
    · rw [plainAtoms, if_neg hyphen]
      exact spelled_character hmark hescape
    · exact begins_character hclose (congrArg some)

theorem isClassMark_ascii (h : isClassMark c = true) : c.toNat < 0x80 := by
  rw [isClassMark, List.contains_iff_mem] at h
  have all : ∀ d ∈ ['-', ']', '[', '&', '~'], d.toNat < 0x80 := by simp
  exact all c h

theorem respells_punctuation (hword : c.isAlphanum = false) :
    ∃ spelling, Respells ['\\', c] ((Text.unitsOf c).map .unit) spelling := by
  have respelled (boundary : Boundary) (rest : List Char) :
      respellAt false boundary true ('\\' :: c :: rest) = _ := respellAt_punctuation hword rest
  rw [spellPunctuation] at respelled
  by_cases hangle : c = '<' ∨ c = '>'
  · rw [if_pos hangle] at respelled
    rcases hangle with rfl | rfl
    all_goals
      exact ⟨_, spelled_character (by decide) (by decide), begins_of_ne (by decide) (by decide),
        respelled⟩
  rw [if_neg hangle] at respelled
  by_cases hascii : c.toNat < 0x80
  · rw [if_pos hascii] at respelled
    exact ⟨_, spelled_escaped hascii (escape?_punctuation hword hangle hascii),
      begins_of_ne (by decide) (by decide), respelled⟩
  · rw [if_neg hascii] at respelled
    have mark : isClassMark c = false := by
      by_contra h
      exact hascii (isClassMark_ascii (Bool.not_eq_false _ ▸ h))
    have ne (d : Char) (hd : d.toNat < 0x80) : c ≠ d := fun h => hascii (h ▸ hd)
    exact ⟨_, spelled_character mark (ne '\\' (by decide)),
      begins_character (ne ']' (by decide)) (fun h => absurd h (ne '^' (by decide))), respelled⟩

theorem respells_escape {atoms : List ClassAtom} (h : escapedAtoms? c = some atoms) :
    ∃ spelling, Respells ['\\', c] atoms spelling := by
  unfold escapedAtoms? at h
  split at h
  iterate 4
    cases h
    exact ⟨_, .single rfl, begins_of_ne (by decide) (by decide), fun _ => respellAt_escape _⟩
  · cases h
    have read (rest : List Char) :
        escape? {} ("x08".toList ++ rest) = some (.literal 8, rest) := rfl
    have backspace : Spells "\\x08".toList 8 := spells_escape read
    refine ⟨_, .single ⟨by decide, backspace⟩, begins_of_ne (by decide) (by decide),
      fun boundary rest => ?_⟩
    have escape : spellEscape false boundary true 'b' rest = ("\\x08".toList, rest) := rfl
    rw [List.cons_append, List.singleton_append, respellAt_escape, escape]
  · obtain ⟨hword, heq⟩ := Option.ite_none_left_eq_some.mp h
    cases heq
    exact respells_punctuation (by simpa using hword)

end Characters

theorem respells_atoms {body : List Char} {atoms : List ClassAtom} (h : atoms? body = some atoms) :
    ∃ spelling, Respells body atoms spelling := by
  fun_induction atoms? body generalizing atoms with
  | case1 =>
    cases h
    exact ⟨[], .nil, fun h => absurd rfl h, fun _ _ => rfl⟩
  | case2 c rest ih =>
    obtain ⟨first, hfirst, h⟩ := Option.bind_eq_some_iff.mp h
    obtain ⟨others, hothers, rfl⟩ := Option.map_eq_some_iff.mp h
    obtain ⟨cs, hcs⟩ := respells_escape hfirst
    obtain ⟨ds, hds⟩ := ih hothers
    exact ⟨cs ++ ds, hcs.append (List.cons_ne_nil _ _) hds⟩
  | case3 => cases h
  | case4 c rest _ hc ih =>
    rw [not_or] at hc
    obtain ⟨others, hothers, rfl⟩ := Option.map_eq_some_iff.mp h
    obtain ⟨cs, hcs⟩ := respells_plain hc.1 hc.2
    obtain ⟨ds, hds⟩ := ih hothers
    exact ⟨cs ++ ds, hcs.append (List.cons_ne_nil _ _) hds⟩

/-! ## Whole classes -/

/-- Past its opening bracket a class is respelled, whatever follows it, as a text that the matchers
read as this set. -/
def ReadAs (text : List Char) (set : CharSet) : Prop :=
  ∃ spelling, (∀ boundary tail, respell false boundary ('[' :: (text ++ ']' :: tail)) =
      '[' :: (spelling ++ respell false boundary tail)) ∧
    ∀ rest, charClass? {} (spelling ++ rest) = some (set, rest)

theorem readAs_of_opens {text cs : List Char} {p : Nat → Bool} {negated : Bool}
    (hopens : Opens cs p) {c : Char} {more : List Char} (hfirst : cs = c :: more) (hclose : c ≠ ']')
    (hcaret : negated = false → c ≠ '^')
    (hrespelled : ∀ boundary tail, respell false boundary ('[' :: (text ++ ']' :: tail)) =
      '[' :: (caret negated ++ cs ++ ']' :: respell false boundary tail)) :
    ∃ set, ReadAs text set ∧
      ∀ unit < 0x10000, set.contains (standIn unit) = (p unit != negated) := by
  obtain ⟨count, rest, q, rfl, hhead, hadds, hp⟩ := hopens
  obtain ⟨set, reads, holds⟩ := charClass?_eq negated hadds hhead hfirst hclose hcaret
  refine ⟨set, ⟨caret negated ++ (List.replicate count '-' ++ rest) ++ [']'],
    fun boundary tail => ?_, fun after => ?_⟩, fun unit hunit => ?_⟩
  · rw [hrespelled, List.append_assoc _ [']'], List.singleton_append]
  · rw [List.append_assoc _ [']'], List.singleton_append]
    exact reads after
  · rw [holds unit hunit, hp]

theorem readAs_empty (negated : Bool) :
    ∃ set, ReadAs (caret negated) set ∧
      ∀ unit < 0x10000, set.contains (standIn unit) = classContains negated [] unit := by
  have opens : Opens _ _ := Adds.everything.opens (by decide)
  have respelled (boundary : Boundary) (tail : List Char) :
      respell false boundary ('[' :: (caret negated ++ ']' :: tail)) =
        '[' :: (caret (!negated) ++ "\\x00-\\x\x7b10FFFF\x7d".toList ++
          ']' :: respell false boundary tail) := by
    have bracket : spellNext false boundary false '[' (caret negated ++ ']' :: tail) =
        ⟨'[' :: (caret (!negated) ++ "\\x00-\\x\x7b10FFFF\x7d".toList ++ [']']), false, tail⟩ := by
      cases negated <;> rfl
    rw [respell_eq, respellAt_cons, bracket, respell_eq, List.cons_append,
      List.append_assoc _ [']'], List.singleton_append]
  obtain ⟨set, read, holds⟩ := readAs_of_opens opens rfl (by decide) (fun _ => by decide) respelled
  refine ⟨set, read, fun unit hunit => ?_⟩
  rw [holds unit hunit]
  cases negated <;> rfl

theorem spellBracket_body {c : Char} {negated : Bool} (hclose : c ≠ ']')
    (hcaret : negated = false → c ≠ '^') (cs : List Char) :
    spellBracket (caret negated ++ c :: cs) = ⟨'[' :: caret negated, true, c :: cs⟩ := by
  unfold spellBracket
  cases negated with
  | true =>
    split
    · next heq => cases heq
    · next heq =>
      cases heq
      exact absurd rfl hclose
    · next heq =>
      cases heq
      rfl
    · next other => exact (other (c :: cs) rfl).elim
  | false =>
    split
    · next heq =>
      cases heq
      exact absurd rfl hclose
    · next heq =>
      cases heq
      exact absurd rfl (hcaret rfl)
    · next heq =>
      cases heq
      exact absurd rfl (hcaret rfl)
    · rfl

theorem readAs_body {c : Char} {cs spelling : List Char} {atoms : List ClassAtom} {p : Nat → Bool}
    {negated : Bool} (h : Respells (c :: cs) atoms spelling) (hclose : c ≠ ']')
    (hcaret : negated = false → c ≠ '^') (hopens : Opens spelling p) :
    ∃ set, ReadAs (caret negated ++ c :: cs) set ∧
      ∀ unit < 0x10000, set.contains (standIn unit) = (p unit != negated) := by
  obtain ⟨d, more, hfirst, hd, hsource⟩ := h.begins (List.cons_ne_nil _ _)
  refine readAs_of_opens hopens hfirst hd (fun hn heq => hcaret hn (Option.some.inj (hsource heq)))
    fun boundary tail => ?_
  have bracket : spellNext false boundary false '[' (caret negated ++ c :: (cs ++ ']' :: tail)) =
      ⟨'[' :: caret negated, true, c :: (cs ++ ']' :: tail)⟩ := spellBracket_body hclose hcaret _
  have closed : respellAt false boundary true (']' :: tail) = ']' :: respell false boundary tail :=
    respellAt_cons ']' tail
  have body := h.respelled boundary (']' :: tail)
  rw [List.cons_append, closed] at body
  rw [respell_eq, List.append_assoc, List.cons_append, respellAt_cons, bracket, body,
    List.cons_append, List.append_assoc]

theorem IsClass.readAs {text : List Char} {negated : Bool} {items : List ClassItem}
    (h : IsClass text negated items) (hkept : Kept .opening items) :
    ∃ set, ReadAs text set ∧
      ∀ unit < 0x10000, set.contains (standIn unit) = classContains negated items unit := by
  obtain ⟨⟨body, atoms, rfl, hcaret, hatoms, hderives⟩, hordered⟩ := h
  cases body with
  | nil =>
    cases hatoms
    have none : items = [] := by
      cases hderives with
      | empty => rfl
      | ranges body => cases body
    subst none
    rw [List.append_nil]
    exact readAs_empty negated
  | cons c cs =>
    have hclose : c ≠ ']' := by
      rintro rfl
      cases hatoms
    obtain ⟨spelling, respells⟩ := respells_atoms hatoms
    have opens := hkept.opens rfl (hderives.spelled respells.spelled) hordered
    exact readAs_body respells hclose (fun hn heq => hcaret hn (heq ▸ rfl)) opens

theorem ReadAs.parse?_eq {text : List Char} {set : CharSet} (h : ReadAs text set)
    (boundary : Boundary) :
    parse? (respell false boundary ('[' :: (text ++ [']']))) = some (.char set) := by
  obtain ⟨spelling, respelled, reads⟩ := h
  have whole := (ReadsAll.cons (reads_class reads) .nil).parse?_eq
  rw [respelled]
  exact whole

theorem ReadAs.compile?_eq {text : List Char} {set : CharSet} {p : Nat → Bool} (h : ReadAs text set)
    (hset : ∀ unit < 0x10000, set.contains (standIn unit) = p unit) :
    ∃ pattern, compile? false (String.ofList ('[' :: (text ++ [']']))) = some pattern ∧
      ∀ t : String, pattern.isMatch t = (Text.units t).any p := by
  have parsed := h.parse?_eq .flagged
  rw [← String.toList_ofList (l := '[' :: (text ++ [']']))] at parsed
  obtain ⟨pattern, compiled, verdicts⟩ := compile?_of_parse? parsed
  refine ⟨pattern, compiled, fun t => ?_⟩
  rw [verdicts, Regex.search_char, encode_false, List.any_map, Bool.eq_iff_iff, List.any_eq_true,
    List.any_eq_true]
  refine exists_congr fun unit => and_congr_right fun hunit => ?_
  obtain ⟨c, -, hc⟩ := List.mem_flatMap.mp hunit
  rw [Function.comp_apply, hset unit (mem_unitsOf_lt hc)]

/-- A class whose hyphens are read alike and whose ranges leave the surrogates together is respelled
as a class of the matchers with the same code units; as a pattern it is compiled, and it matches the
texts with such a code unit. -/
theorem class_keeps_meaning {text : List Char} {negated : Bool} {items : List ClassItem}
    (h : IsClass text negated items) (hkept : Kept .opening items) :
    ∃ set, ReadAs text set ∧
      (∀ unit < 0x10000, set.contains (standIn unit) = classContains negated items unit) ∧
      ∃ pattern, compile? false (String.ofList ('[' :: (text ++ [']']))) = some pattern ∧
        ∀ t : String, pattern.isMatch t = (Text.units t).any (classContains negated items) := by
  obtain ⟨set, read, holds⟩ := h.readAs hkept
  exact ⟨set, read, holds, read.compile?_eq holds⟩

/-- Hyphens at the start of a class, next to an escape, in a range and at the end; a character of
two code units. -/
theorem hyphens_keep_meaning :
    ∃ items, IsClass "^--\\d-xa-f&\\]💩-".toList true items ∧ Kept .opening items ∧
      ∃ p, compile? false "[^--\\d-xa-f&\\]💩-]" = some p ∧ p.isMatch "-5bx&]💩" = false ∧
        p.isMatch "-5gx" = true := by
  let items : List ClassItem := [.span .hyphen (.digit false), .single .hyphen,
    .single (.unit 0x78), .span (.unit 0x61) (.unit 0x66), .single (.unit 0x26),
    .single (.unit 0x5D), .single (.unit 0xD83D), .single (.unit 0xDCA9), .single .hyphen]
  have ne : ClassRule.nonempty ≠ .ranges := by decide
  have ne' : ClassRule.noDash ≠ .ranges := by decide
  have derives : Derives .ranges [.hyphen, .hyphen, .digit false, .hyphen, .unit 0x78, .unit 0x61,
      .hyphen, .unit 0x66, .unit 0x26, .unit 0x5D, .unit 0xD83D, .unit 0xDCA9, .hyphen] items :=
    .ranges (.span _ ne (by decide) (.ranges (.next ne (by decide) (.next ne' (by decide)
      (.span _ ne' (by decide) (.ranges (.next ne (by decide) (.next ne' (by decide)
        (.next ne' (by decide) (.next ne' (by decide) (.atom _ ne')))))))))))
  have isClass : IsClass "^--\\d-xa-f&\\]💩-".toList true items :=
    ⟨⟨"--\\d-xa-f&\\]💩-".toList, _, rfl, by decide, rfl, derives⟩, by decide⟩
  have kept : Kept .opening items :=
    .openingSet rfl (.hyphen (.atom (by decide) (.range (.inl (by decide)) (.atom (by decide)
      (.atom (by decide) (.atom (by decide) (.atom (by decide) (.trailing (by decide)))))))))
  obtain ⟨-, -, -, p, compiled, verdicts⟩ := class_keeps_meaning isClass kept
  refine ⟨items, isClass, kept, p, compiled, ?_, ?_⟩
  · rw [verdicts]
    decide
  · rw [verdicts]
    decide

/-- After `\w` a hyphen continues the underscore that its spelling ends in, so the class loses the
hyphen and gains a grave accent, or is refused. A range across the surrogates loses them. -/
theorem hyphen_after_word_lost :
    (∃ items, IsClass "\\w-z".toList false items ∧ classContains false items 0x2D = true ∧
      classContains false items 0x60 = false ∧
      ∃ p, compile? false "[\\w-z]" = some p ∧ p.isMatch "-" = false ∧ p.isMatch "`" = true) ∧
    (∃ items, IsClass "\\w-.".toList false items ∧ compile? false "[\\w-.]" = none) ∧
    ∃ items, IsClass "a-\uFFFD".toList false items ∧ classContains false items 0xD83D = true ∧
      ∃ p, compile? false "[a-\uFFFD]" = some p ∧ p.isMatch "😀" = false := by
  have span (a b : ClassAtom) : Derives .ranges [a, .hyphen, b] [.span a b] :=
    .ranges (.span b (by decide) (fun h => by cases h) .empty)
  have word (c : Char) (b : ClassAtom)
      (h : atoms? ['\\', 'w', '-', c] = some [.word false, .hyphen, b]) :
      IsClass ['\\', 'w', '-', c] false [.span (.word false) b] :=
    ⟨⟨['\\', 'w', '-', c], _, rfl, by simp, h, span _ _⟩, by simp; rfl⟩
  refine ⟨⟨_, word 'z' _ rfl, rfl, rfl, _, rfl, ?_, ?_⟩, ⟨_, word '.' _ rfl, ?_⟩,
    ⟨_, ⟨⟨"a-\uFFFD".toList, _, rfl, by decide, rfl, span _ _⟩, by decide⟩, rfl, _, rfl, ?_⟩⟩
  all_goals decide +kernel

end SchemaLogic.Pattern
