import SchemaLogic.Proofs.LiteralPattern

/-! # Texts written as patterns

A text can be written as a pattern by the escapes of its code units or, outside of ASCII, as it is.
Either way its characters become literals of the matcher, and these are the text as the matcher sees
it. -/
namespace SchemaLogic

namespace Pattern

open Standard

/-! ## Literal characters -/

theorem hexEscape?_scalar {n : Nat} (h : n.isValidChar) (rest : List Char) :
    hexEscape? ('\x7b' :: (Text.hexText n ++ '\x7d' :: rest)) = some (n, rest) := by
  have digits : ∀ c ∈ Text.hexText n, (c != '\x7d') = true := by
    intro c hc
    rw [bne_iff_ne]
    rintro rfl
    cases Text.hexValue?_of_hexNumber? (Text.hexNumber?_hexText n) _ hc
  have taken : (Text.hexText n ++ '\x7d' :: rest).takeWhile (· != '\x7d') = Text.hexText n := by
    rw [List.takeWhile_append_of_pos digits]
    simp
  have dropped : (Text.hexText n ++ '\x7d' :: rest).dropWhile (· != '\x7d') = '\x7d' :: rest := by
    rw [List.dropWhile_append_of_pos digits]
    simp
  simp [hexEscape?, taken, dropped, Text.hexNumber?_hexText, scalar?, h]

theorem escape?_scalar {n : Nat} (h : n.isValidChar) (rest : List Char) :
    escape? {} ('x' :: '\x7b' :: (Text.hexText n ++ ['\x7d']) ++ rest) =
      some (.literal n, rest) := by
  simp [escape?, hexEscape?_scalar h]

theorem reads_scalarEscape {n : Nat} (h : n.isValidChar) :
    Reads (scalarEscape n) (.char (.single n)) := reads_escape (escape?_scalar h)

/-- A text is a sequence of literal characters, each outside of ASCII or written by its number. -/
inductive Scalars : List Char → List Nat → Prop where
  | nil : Scalars [] []
  | raw {c : Char} {cs : List Char} {ns : List Nat} (outside : 0x80 ≤ c.toNat)
    (tail : Scalars cs ns) : Scalars (c :: cs) (c.toNat :: ns)
  | escaped {n : Nat} {cs : List Char} {ns : List Nat} (valid : n.isValidChar)
    (tail : Scalars cs ns) : Scalars (scalarEscape n ++ cs) (n :: ns)

theorem isOperator_ascii {c : Char} (h : isOperator c = true) : c.toNat < 0x80 := by
  rw [isOperator, List.contains_iff_mem] at h
  have all : ∀ d ∈ ['|', '(', ')', '[', '\\', '^', '$', '.', '*', '+', '?', '\x7b'],
      d.toNat < 0x80 := by simp
  exact all c h

theorem Scalars.readsAll {cs : List Char} {ns : List Nat} (h : Scalars cs ns) :
    ReadsAll cs (Regex.literals ns) := by
  induction h with
  | nil => exact .nil
  | @raw c cs ns outside _ ih =>
    have literal : isOperator c = false := by
      by_contra hop
      have ascii := isOperator_ascii (Bool.not_eq_false _ ▸ hop)
      omega
    exact .cons (reads_literal literal) ih
  | escaped valid _ ih => exact .cons (reads_scalarEscape valid) ih

theorem isValidChar_toNat (c : Char) : c.toNat.isValidChar := c.valid

theorem isValidChar_surrogate {unit : Nat} (h : 0xD800 ≤ unit) (h' : unit < 0xE000) :
    (surrogateBase + unit).isValidChar := by
  rw [surrogateBase, Nat.isValidChar]
  omega

theorem isValidChar_standIn {unit : Nat} (h : unit < 0x10000) : (standIn unit).isValidChar := by
  rcases Nat.lt_or_ge unit 0xD800 with hlow | hlow
  · rw [standIn_other (.inl hlow)]
    exact .inl hlow
  · rcases Nat.lt_or_ge unit 0xE000 with hhigh | hhigh
    · rw [standIn_surrogate hlow hhigh]
      exact isValidChar_surrogate hlow hhigh
    · rw [standIn_other (.inr hhigh), Nat.isValidChar]
      omega

/-! ## A text as its own pattern -/

section Respelled

variable {unicode : Bool} {boundary : Boundary}

/-- Whatever follows, a text is respelled as the literal characters of these numbers. -/
def Translates (unicode : Bool) (boundary : Boundary) (cs : List Char) (ns : List Nat) : Prop :=
  ∃ spelling, Scalars spelling ns ∧ ∀ rest, respellAt unicode boundary false (cs ++ rest) =
    spelling ++ respellAt unicode boundary false rest

theorem Scalars.append {cs ds : List Char} {ms ns : List Nat} (h : Scalars cs ms)
    (h' : Scalars ds ns) : Scalars (cs ++ ds) (ms ++ ns) := by
  induction h with
  | nil => exact h'
  | raw outside _ ih => exact .raw outside ih
  | escaped valid _ ih =>
    rw [List.append_assoc]
    exact .escaped valid ih

theorem Translates.append {cs ds : List Char} {ms ns : List Nat}
    (h : Translates unicode boundary cs ms) (h' : Translates unicode boundary ds ns) :
    Translates unicode boundary (cs ++ ds) (ms ++ ns) := by
  obtain ⟨first, hfirst, hcs⟩ := h
  obtain ⟨second, hsecond, hds⟩ := h'
  refine ⟨first ++ second, hfirst.append hsecond, fun rest => ?_⟩
  rw [List.append_assoc, hcs, hds, List.append_assoc]

theorem Translates.scalars {cs : List Char} {ns : List Nat}
    (h : Translates unicode boundary cs ns) : Scalars (respell unicode boundary cs) ns := by
  obtain ⟨spelling, hspelling, hcs⟩ := h
  have whole := hcs []
  rw [List.append_nil] at whole
  rw [respell_eq, whole]
  exact (List.append_nil spelling).symm ▸ hspelling

theorem scalars_spellChar {c : Char} (h : 0x80 ≤ c.toNat) :
    Scalars (spellChar unicode c) (encodeChar unicode c) := by
  have bounds := toNat_cases c
  rw [spellChar, encodeChar]
  split
  · exact .raw h .nil
  · next beyond =>
    have beyond : 0xFFFF < c.toNat := by simp at beyond; omega
    rw [Text.unitsOf, if_neg (by omega)]
    exact .escaped (isValidChar_surrogate (by omega) (by omega))
      (.escaped (isValidChar_surrogate (by omega) (by omega)) .nil)

theorem translates_raw {cs : List Char} (h : ∀ c ∈ cs, 0x80 ≤ c.toNat) :
    Translates unicode boundary cs (encode unicode cs) := by
  induction cs with
  | nil => exact ⟨[], .nil, fun _ => rfl⟩
  | cons c cs ih =>
    obtain ⟨hc, hcs⟩ := List.forall_mem_cons.mp h
    have plain : isMarked false c = false := by
      by_contra hmarked
      simp only [isMarked, Bool.not_eq_false, Bool.or_eq_true, beq_iff_eq] at hmarked
      rcases hmarked with (((rfl | rfl) | rfl) | rfl) | rfl <;> exact absurd hc (by decide)
    have head : Translates unicode boundary [c] (encodeChar unicode c) :=
      ⟨spellChar unicode c, scalars_spellChar hc, respellAt_plain plain⟩
    exact head.append (ih hcs)

/-! ## A text as escapes of its code units -/

inductive Escapes : List Char → List Nat → Prop where
  | nil : Escapes [] []
  | cons {digits cs : List Char} {unit : Nat} {units : List Nat} (head : Quad digits unit)
    (tail : Escapes cs units) : Escapes ('\\' :: 'u' :: (digits ++ cs)) (unit :: units)

theorem Escapes.of_cons {source : List Char} {unit : Nat} {units : List Nat}
    (h : Escapes source (unit :: units)) :
    ∃ digits rest, source = '\\' :: 'u' :: (digits ++ rest) ∧ Quad digits unit ∧
      Escapes rest units := by
  cases h with
  | cons head tail => exact ⟨_, _, rfl, head, tail⟩

theorem respellAt_unit {digits : List Char} {unit : Nat} (h : Quad digits unit) (rest : List Char) :
    respellAt unicode boundary false ('\\' :: 'u' :: (digits ++ rest)) =
      (spellUnit unicode unit rest).1 ++
        respellAt unicode boundary false (spellUnit unicode unit rest).2 := by
  have read : unit? (digits ++ rest) = some (unit, rest) := unit?_eq_some.mpr ⟨digits, h, rfl⟩
  rw [respellAt_escape]
  simp only [spellEscape, read]

theorem spellUnit_alone {unit : Nat} (h : (unicode && Text.isHighSurrogate unit) = false)
    (rest : List Char) : spellUnit unicode unit rest = (scalarEscape (standIn unit), rest) := by
  rw [spellUnit, h]
  rfl

theorem spellUnit_pair {high low : Nat} {digits : List Char}
    (hhigh : Text.isHighSurrogate high = true) (hlow : Text.isLowSurrogate low = true)
    (hdigits : Quad digits low) (rest : List Char) :
    spellUnit true high ('\\' :: 'u' :: (digits ++ rest)) =
      (scalarEscape (0x10000 + (high - 0xD800) * 0x400 + (low - 0xDC00)), rest) := by
  have read : lowSurrogate? ('\\' :: 'u' :: (digits ++ rest)) = some (low, rest) :=
    lowSurrogate?_eq_some.mpr ⟨hlow, digits, hdigits, rfl⟩
  rw [spellUnit, hhigh, read]
  rfl

theorem translates_unit {digits : List Char} {unit : Nat} (h : Quad digits unit)
    (hunit : unit < 0x10000) (halone : (unicode && Text.isHighSurrogate unit) = false) :
    Translates unicode boundary ('\\' :: 'u' :: digits) [standIn unit] := by
  refine ⟨scalarEscape (standIn unit), ?_, fun rest => ?_⟩
  · exact (List.append_nil (scalarEscape (standIn unit))) ▸
      .escaped (isValidChar_standIn hunit) .nil
  · rw [List.cons_append, List.cons_append, respellAt_unit h, spellUnit_alone halone]

theorem translates_pair {c : Char} (h : 0xFFFF < c.toNat) {first second : List Char}
    (hfirst : Quad first (0xD800 + (c.toNat - 0x10000) / 0x400))
    (hsecond : Quad second (0xDC00 + (c.toNat - 0x10000) % 0x400)) :
    Translates true boundary ('\\' :: 'u' :: first ++ '\\' :: 'u' :: second) [c.toNat] := by
  have bounds := toNat_cases c
  have high : Text.isHighSurrogate (0xD800 + (c.toNat - 0x10000) / 0x400) = true := by
    simp only [Text.isHighSurrogate, Bool.and_eq_true, decide_eq_true_eq]
    omega
  have low : Text.isLowSurrogate (0xDC00 + (c.toNat - 0x10000) % 0x400) = true := by
    simp only [Text.isLowSurrogate, Bool.and_eq_true, decide_eq_true_eq]
    omega
  have joined : 0x10000 + (0xD800 + (c.toNat - 0x10000) / 0x400 - 0xD800) * 0x400 +
      (0xDC00 + (c.toNat - 0x10000) % 0x400 - 0xDC00) = c.toNat := by omega
  refine ⟨scalarEscape c.toNat, ?_, fun rest => ?_⟩
  · exact (List.append_nil (scalarEscape c.toNat)) ▸ .escaped (isValidChar_toNat c) .nil
  · have shape : '\\' :: 'u' :: first ++ '\\' :: 'u' :: second ++ rest =
        '\\' :: 'u' :: (first ++ '\\' :: 'u' :: (second ++ rest)) := by simp
    rw [shape, respellAt_unit hfirst, spellUnit_pair high low hsecond, joined]

/-- The escapes of a text's code units stand for the text as the matcher sees it: in Unicode mode
the two halves of a character are joined again. -/
theorem translates_escapes {cs source : List Char} (h : Escapes source (cs.flatMap Text.unitsOf)) :
    Translates unicode boundary source (encode unicode cs) := by
  induction cs generalizing source with
  | nil =>
    cases h
    exact ⟨[], .nil, fun _ => rfl⟩
  | cons c cs ih =>
    have bounds := toNat_cases c
    rw [List.flatMap_cons, Text.unitsOf] at h
    rw [encode_cons]
    by_cases hsingle : c.toNat ≤ 0xFFFF
    · rw [if_pos hsingle] at h
      obtain ⟨digits, rest, rfl, hdigits, htail⟩ := h.of_cons
      have other : c.toNat < 0xD800 ∨ 0xE000 ≤ c.toNat := by omega
      have alone : (unicode && Text.isHighSurrogate c.toNat) = false := by
        simp [Text.isHighSurrogate]
        omega
      have unit : Translates unicode boundary _ _ := translates_unit hdigits (by omega) alone
      rw [standIn_other other] at unit
      rw [encodeChar_single (.inr hsingle)]
      exact unit.append (ih htail)
    · rw [if_neg hsingle] at h
      obtain ⟨first, after, rfl, hfirst, hafter⟩ := h.of_cons
      obtain ⟨second, rest, rfl, hsecond, htail⟩ := hafter.of_cons
      have shape : '\\' :: 'u' :: (first ++ '\\' :: 'u' :: (second ++ rest)) =
          '\\' :: 'u' :: first ++ '\\' :: 'u' :: second ++ rest := by simp
      rw [shape]
      refine Translates.append ?_ (ih htail)
      cases unicode with
      | true =>
        rw [encodeChar_single (.inl rfl)]
        exact translates_pair (Nat.lt_of_not_le hsingle) hfirst hsecond
      | false =>
        rw [encodeChar_false, Text.unitsOf, if_neg hsingle]
        exact (translates_unit hfirst (by omega) rfl).append
          (translates_unit hsecond (by omega) rfl)

end Respelled

/-! ## Patterns for one text -/

def Writes (source : List Char) (s : String) : Prop :=
  Escapes source (Text.units s) ∨ source = s.toList ∧ ∀ c ∈ source, 0x80 ≤ c.toNat

theorem Writes.translates {unicode : Bool} {boundary : Boundary} {source : List Char} {s : String}
    (h : Writes source s) : Translates unicode boundary source (encode unicode s.toList) := by
  rcases h with h | ⟨rfl, h⟩
  · exact translates_escapes h
  · exact translates_raw h

theorem Translates.parse?_whole {unicode : Bool} {boundary : Boundary} {cs : List Char}
    {ns : List Nat} (h : Translates unicode boundary cs ns) :
    parse? (respell unicode boundary ('^' :: (cs ++ ['$']))) =
      some (concat (Regex.anchored true ns)) := by
  obtain ⟨spelling, hspelling, hcs⟩ := h
  rw [respell_eq, respellAt_plain (c := '^') rfl, hcs, respellAt_plain (c := '$') rfl,
    spellChar_ascii (by decide), spellChar_ascii (by decide)]
  exact (ReadsAll.cons reads_start (hspelling.readsAll.append (.cons reads_end .nil))).parse?_eq

theorem exists_quad {unit : Nat} (h : unit < 0x10000) : ∃ digits, Quad digits unit := by
  have digit (d : Nat) (hd : d < 16) := Text.hexValue?_digitChar hd
  have number := Text.hexNumber?_concat (Text.hexNumber?_concat (Text.hexNumber?_concat
    (Text.hexNumber?_singleton (digit (unit / 0x1000) (by omega)))
    (digit (unit / 0x100 % 16) (by omega))) (digit (unit / 0x10 % 16) (by omega)))
    (digit (unit % 16) (by omega))
  have value : 16 * (16 * (16 * (unit / 0x1000) + unit / 0x100 % 16) + unit / 0x10 % 16) +
      unit % 16 = unit := by omega
  rw [value] at number
  exact ⟨_, rfl, number⟩

theorem exists_escapes {units : List Nat} (h : ∀ unit ∈ units, unit < 0x10000) :
    ∃ source, Escapes source units := by
  induction units with
  | nil => exact ⟨[], .nil⟩
  | cons unit units ih =>
    obtain ⟨hunit, hunits⟩ := List.forall_mem_cons.mp h
    obtain ⟨digits, hdigits⟩ := exists_quad hunit
    obtain ⟨source, hsource⟩ := ih hunits
    exact ⟨_, .cons hdigits hsource⟩

/-- Every text can be written by the escapes of its code units. However a text is written as a
pattern, its respelling spells the text as the matcher sees it, in either mode; between both ends of
the text the pattern matches that text and no other. Without Unicode mode different texts are seen
differently, with as many characters as they have code units. -/
theorem written_text_matched :
    (∀ s : String, ∃ source, Escapes source (Text.units s)) ∧
    (∀ (unicode : Bool) (source : List Char) (s : String), Writes source s →
      (∀ boundary, Scalars (respell unicode boundary source) (encode unicode s.toList)) ∧
      ∃ p, compile? unicode (String.ofList ('^' :: (source ++ ['$']))) = some p ∧
        ∀ text, p.isMatch text = true ↔ text = s) ∧
    (∀ s t : String, encode false s.toList = encode false t.toList → s = t) ∧
    ∀ s : String, (encode false s.toList).length = Text.unitCount s := by
  refine ⟨fun s => exists_escapes fun unit hunit => ?_, fun unicode source s h => ⟨?_, ?_⟩,
    fun s t h => String.toList_inj.mp (encode_inj.mp h), fun s => ?_⟩
  · obtain ⟨c, -, hc⟩ := List.mem_flatMap.mp hunit
    exact mem_unitsOf_lt hc
  · exact fun boundary => h.translates.scalars
  · have translates : Translates unicode .flagged source _ := h.translates
    have parsed := translates.parse?_whole
    rw [← String.toList_ofList (l := '^' :: (source ++ ['$']))] at parsed
    obtain ⟨p, hp, verdicts⟩ := compile?_of_parse? parsed
    refine ⟨p, hp, fun text => ?_⟩
    rw [verdicts, Regex.search_anchored, ← String.toList_inj]
    constructor
    · rintro ⟨-, whole⟩
      exact (encode_inj.mp (whole rfl)).symm
    · intro heq
      rw [heq]
      exact ⟨List.prefix_rfl, fun _ => rfl⟩
  · rw [encode_false, List.length_map]
    rfl

/-- A character of two code units by its escapes, in digits of either case and in both modes, and as
it is before another one. -/
theorem pair_written_matched :
    Writes "\\uD83d\\uDCA9".toList "💩" ∧ Writes "💩é".toList "💩é" ∧
      (∃ p, compile? true "^\\uD83d\\uDCA9$" = some p ∧ p.isMatch "💩" = true ∧
        p.isMatch "💩💩" = false) ∧
      ∃ p, compile? false "^💩é$" = some p ∧ p.isMatch "💩é" = true ∧ p.isMatch "💩" = false := by
  have escaped : Writes "\\uD83d\\uDCA9".toList "💩" := by
    refine .inl ?_
    have high : Quad "D83d".toList 0xD83D := ⟨rfl, by decide⟩
    have low : Quad "DCA9".toList 0xDCA9 := ⟨rfl, by decide⟩
    exact .cons high (.cons low .nil)
  have raw : Writes "💩é".toList "💩é" := .inr ⟨rfl, by simp⟩
  obtain ⟨-, written, -, -⟩ := written_text_matched
  obtain ⟨-, p, hp, verdicts⟩ := written true _ _ escaped
  obtain ⟨-, q, hq, verdicts'⟩ := written false _ _ raw
  refine ⟨escaped, raw, ⟨p, hp, (verdicts _).mpr rfl, ?_⟩, q, hq, (verdicts' _).mpr rfl, ?_⟩
  · rw [Bool.eq_false_iff, Ne, verdicts]
    decide
  · rw [Bool.eq_false_iff, Ne, verdicts']
    decide

end Pattern

end SchemaLogic
