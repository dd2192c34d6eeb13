import SchemaLogic.Pattern.Engine
import SchemaLogic.Proofs.CodeUnits
import SchemaLogic.Proofs.PatternSequence
import SchemaLogic.Proofs.Respelling

/-! # Literal patterns without a matcher

A pattern that only asks for a literal text is compared with the text as it is. Respelled and
matched like any other pattern it gives the same verdicts. -/
namespace SchemaLogic.Pattern

open Standard

/-! ## The characters of literals -/

theorem isPlain_ascii {c : Char} (h : isPlain c = true) : c.toNat < 0x80 := by
  simp only [isPlain, Bool.or_eq_true, beq_iff_eq] at h
  rcases h with (((h | h) | rfl) | rfl) | rfl <;> try decide
  · simp only [Char.isDigit, Bool.and_eq_true, decide_eq_true_eq] at h
    exact Nat.lt_of_le_of_lt h.2 (by decide)
  · change (c.isUpper || c.isLower) = true at h
    rw [Bool.or_eq_true] at h
    rcases h with h | h
    · have last : c.val ≤ 'Z'.val := (of_decide_eq_true h).2
      exact Nat.lt_of_le_of_lt last (by decide)
    · have last : c.val ≤ 'z'.val := of_decide_eq_true (Bool.and_eq_true_iff.mp h).2
      exact Nat.lt_of_le_of_lt last (by decide)

theorem isPlain_not_isMarked {c : Char} (h : isPlain c = true) : isMarked false c = false := by
  by_contra hmarked
  simp only [isMarked, Bool.not_eq_false, Bool.or_eq_true, beq_iff_eq] at hmarked
  rcases hmarked with (((rfl | rfl) | rfl) | rfl) | rfl <;> cases h

theorem isPlain_not_isOperator {c : Char} (h : isPlain c = true) : isOperator c = false := by
  by_contra hop
  rw [Bool.not_eq_false, isOperator, List.contains_iff_mem] at hop
  have none : ∀ d ∈ ['|', '(', ')', '[', '\\', '^', '$', '.', '*', '+', '?', '\x7b'],
      isPlain d = false := by simp [isPlain]
  rw [none c hop] at h
  cases h

theorem isEscapable_cases {c : Char} (h : isEscapable c = true) :
    c = '/' ∨ c = '-' ∨ c = '_' ∨ c = '$' ∨ c = '.' := by
  simpa [isEscapable, or_assoc] using h

theorem literalBody?_ascii {body : List Char} {l : Literal} (h : literalBody? body = some l) :
    ∀ c ∈ l.text, c.toNat < 0x80 := by
  fun_induction literalBody? body generalizing l with
  | case1 | case2 => cases h; simp
  | case3 c rest hc ih =>
    obtain ⟨inner, hinner, rfl⟩ := Option.map_eq_some_iff.mp h
    refine List.forall_mem_cons.mpr ⟨?_, ih hinner⟩
    rcases isEscapable_cases hc with rfl | rfl | rfl | rfl | rfl <;> decide
  | case5 c rest _ _ hc ih =>
    obtain ⟨inner, hinner, rfl⟩ := Option.map_eq_some_iff.mp h
    exact List.forall_mem_cons.mpr ⟨isPlain_ascii hc, ih hinner⟩
  | case4 | case6 => cases h

/-! ## Their respelling -/

section Respelled

variable {unicode : Bool} {boundary : Boundary}

theorem spellChar_ascii {c : Char} (h : c.toNat < 0x80) : spellChar unicode c = [c] := by
  have single : c.toNat ≤ 0xFFFF := by omega
  rw [spellChar, if_pos (by simp [single])]

theorem reads_escapable {c : Char} (h : isEscapable c = true) :
    Reads (spellPunctuation unicode c) (.char (.single c.toNat)) := by
  rcases isEscapable_cases h with rfl | rfl | rfl | rfl | rfl <;> exact reads_escape fun _ => rfl

/-- The respelled body is read as the literal characters, and the end of the text if it is
closed. -/
theorem readsAll_literalBody {body : List Char} {l : Literal} (h : literalBody? body = some l) :
    ReadsAll (respellAt unicode boundary false body)
      (Regex.literals (l.text.map Char.toNat) ++ if l.closed then [.anchor .textEnd] else []) := by
  fun_induction literalBody? body generalizing l with
  | case1 => cases h; exact .nil
  | case2 =>
    cases h
    rw [respellAt_plain (c := '$') rfl, spellChar_ascii (by decide)]
    exact .cons reads_end .nil
  | case3 c rest hc ih =>
    obtain ⟨inner, hinner, rfl⟩ := Option.map_eq_some_iff.mp h
    have word : c.isAlphanum = false := by
      rcases isEscapable_cases hc with rfl | rfl | rfl | rfl | rfl <;> rfl
    rw [respellAt_punctuation word]
    exact .cons (reads_escapable hc) (ih hinner)
  | case5 c rest _ _ hc ih =>
    obtain ⟨inner, hinner, rfl⟩ := Option.map_eq_some_iff.mp h
    rw [respellAt_plain (isPlain_not_isMarked hc), spellChar_ascii (isPlain_ascii hc)]
    exact .cons (reads_literal (isPlain_not_isOperator hc)) (ih hinner)
  | case4 | case6 => cases h

theorem parse?_literal {source : List Char} {l : Literal} (h : literal? source = some l) :
    parse? (respell unicode boundary source) =
      some (concat (Regex.anchored l.closed (l.text.map Char.toNat))) := by
  unfold literal? at h
  split at h
  · next body =>
    rw [respell_eq, respellAt_plain (c := '^') rfl, spellChar_ascii (by decide)]
    exact (ReadsAll.cons reads_start (readsAll_literalBody h)).parse?_eq
  · cases h

end Respelled

/-! ## Their verdicts -/

theorem encode_ascii {unicode : Bool} {cs : List Char} (h : ∀ c ∈ cs, c.toNat < 0x80) :
    encode unicode cs = cs.map Char.toNat := by
  induction cs with
  | nil => rfl
  | cons c cs ih =>
    obtain ⟨hc, hcs⟩ := List.forall_mem_cons.mp h
    rw [encode_cons, encodeChar_single (.inr (by omega)), ih hcs]
    rfl

theorem isMatch_form {unicode : Bool} (l : Literal) (text : String) :
    l.form.isMatch unicode text = true ↔
      l.text <+: text.toList ∧ (l.closed = true → l.text = text.toList) := by
  obtain ⟨literal, closed⟩ := l
  cases closed with
  | false => simp [Literal.form, Form.isMatch]
  | true =>
    have whole : String.ofList literal = text ↔ literal = text.toList := by
      rw [← String.toList_inj, String.toList_ofList]
    simp only [Literal.form, Form.isMatch, if_true, beq_iff_eq, whole, forall_const]
    exact ⟨fun h => ⟨h ▸ List.prefix_rfl, h⟩, And.right⟩

theorem isMatch_literal {source : List Char} {l : Literal} (h : literal? source = some l)
    (unicode : Bool) (text : String) :
    l.form.isMatch unicode text =
      (concat (Regex.anchored l.closed (l.text.map Char.toNat))).search
        (encode unicode text.toList) := by
  have ascii : ∀ c ∈ l.text, c.toNat < 0x80 := by
    unfold literal? at h
    split at h
    · exact literalBody?_ascii h
    · cases h
  have encoded : encode unicode l.text = l.text.map Char.toNat := encode_ascii ascii
  rw [Bool.eq_iff_iff, isMatch_form, Regex.search_anchored, ← encoded, encode_prefix_iff,
    encode_inj]

theorem expression?_of_parse? {unicode : Bool} {source : List Char} {e : Regex}
    (h : parse? (respell unicode .flagged source) = some e) :
    expression? unicode source = some (.standard e.search) := by
  have read : Engines.standard (respell unicode .flagged source) = some e.search :=
    (congrArg (Option.map Regex.search) h).trans rfl
  rw [expression?, read]

theorem compile?_of_parse? {unicode : Bool} {source : String} {e : Regex}
    (h : parse? (respell unicode .flagged source.toList) = some e) :
    ∃ p, compile? unicode source = some p ∧
      ∀ text : String, p.isMatch text = e.search (encode unicode text.toList) := by
  rw [compile?]
  cases hl : literal? source.toList with
  | some l =>
    rw [parse?_literal hl] at h
    cases h
    exact ⟨_, rfl, isMatch_literal hl unicode⟩
  | none =>
    rw [expression?_of_parse? h]
    exact ⟨_, rfl, fun _ => rfl⟩

/-- A literal pattern, respelled for either boundary and in either mode, is an expression of the
standard grammar, and the search for it has the verdicts of the plain comparison. -/
theorem literal_as_expression {source : String} {l : Literal}
    (h : literal? source.toList = some l) (unicode : Bool) :
    ∃ e, (∀ boundary, parse? (respell unicode boundary source.toList) = some e) ∧
      expression? unicode source.toList = some (.standard e.search) ∧
      compile? unicode source = some ⟨source, unicode, l.form⟩ ∧
      ∀ text : String, l.form.isMatch unicode text = e.search (encode unicode text.toList) := by
  refine ⟨concat (Regex.anchored l.closed (l.text.map Char.toNat)), fun _ => parse?_literal h, ?_,
    ?_, isMatch_literal h unicode⟩
  · exact expression?_of_parse? (parse?_literal h)
  · rw [compile?, h]

/-- A dollar sign after a backslash is a character, at the end it closes the literal; a text with a
character of two code units is none. -/
theorem dollar_as_expression :
    literal? "^a\\$b$".toList = some ⟨['a', '$', 'b'], true⟩ ∧
      ∃ e : Regex, expression? false "^a\\$b$".toList = some (.standard e.search) ∧
        e.search (encode false "a$b".toList) = true ∧
        e.search (encode false "a$b😀".toList) = false := by
  have h : literal? "^a\\$b$".toList = some ⟨['a', '$', 'b'], true⟩ := by decide
  obtain ⟨e, -, standard, -, verdicts⟩ := literal_as_expression h false
  refine ⟨h, e, standard, ?_, ?_⟩
  · rw [← verdicts]
    decide
  · rw [← verdicts]
    decide

end SchemaLogic.Pattern
