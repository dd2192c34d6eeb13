import Mathlib.Algebra.Group.Nat.Defs
import SchemaLogic.Proofs.SpelledText

/-! # Unpaired surrogates in Unicode mode

In Unicode mode a text is matched as its characters, and no text has a surrogate of its own. A
surrogate in a pattern that has no partner is still spelled by its stand-in, and the stand-ins are
characters: U+10D800 to U+10DFFF. So such a pattern is kept from matching by the texts without
these characters, and by no others. -/
namespace SchemaLogic

theorem Regex.search_literals {ns text : List Nat} :
    (Pattern.concat (literals ns)).search text = true ↔ ns <:+: text := by
  have passes (start : Nat) :
      (∃ m', Passes ⟨text.toArray, (Pattern.concat (literals ns)).references⟩ (literals ns)
        ⟨start, []⟩ m') ↔ ns <+: text.drop start := by
    rw [← List.append_nil (literals ns)]
    simp only [passes_literals, Passes, exists_and_left, exists_eq, and_true]
  simp only [search_iff, mem_outcomes_concat isSeq_literals]
  constructor
  · rintro ⟨start, -, found⟩
    exact List.infix_iff_prefix_suffix.mpr ⟨_, (passes start).mp found, List.drop_suffix _ _⟩
  · intro found
    obtain ⟨before, after, rfl⟩ := found
    refine ⟨before.length, by simp, (passes before.length).mpr ?_⟩
    simp

namespace Text

theorem hexValue?_lt {c : Char} {d : Nat} (h : hexValue? c = some d) : d < 16 := by
  unfold hexValue? at h
  split at h
  · next hc =>
    cases h
    have last : c.toNat ≤ 57 := hc.2
    change c.toNat - 48 < 16
    omega
  · split at h
    · next hc =>
      cases h
      have last : c.toNat ≤ 102 := hc.2
      change c.toNat - 97 + 10 < 16
      omega
    · split at h
      · next hc =>
        cases h
        have last : c.toNat ≤ 70 := hc.2
        change c.toNat - 65 + 10 < 16
        omega
      · cases h

theorem hexNumber?_lt {cs : List Char} {n : Nat} (h : hexNumber? cs = some n) :
    n < 16 ^ cs.length := by
  have read (cs : List Char) (digits : List Nat) (start : Nat)
      (h : cs.mapM hexValue? = some digits) :
      digits.foldl (fun n digit => 16 * n + digit) start < (start + 1) * 16 ^ cs.length := by
    induction cs generalizing digits start with
    | nil =>
      cases h
      simp
    | cons c cs ih =>
      simp only [List.mapM_cons, bind, Option.bind_eq_some_iff] at h
      obtain ⟨d, hd, rest, hrest, h⟩ := h
      cases h
      have small := hexValue?_lt hd
      calc rest.foldl (fun n digit => 16 * n + digit) (16 * start + d)
        _ < (16 * start + d + 1) * 16 ^ cs.length := ih rest _ hrest
        _ ≤ (start + 1) * 16 * 16 ^ cs.length := Nat.mul_le_mul_right _ (by omega)
        _ = (start + 1) * 16 ^ (c :: cs).length := by
          rw [List.length_cons, Nat.pow_succ', Nat.mul_assoc]
  rw [hexNumber?] at h
  split at h
  · cases h
  · obtain ⟨digits, hdigits, rfl⟩ := Option.map_eq_some_iff.mp h
    simpa using read cs digits 0 hdigits

end Text

namespace Pattern

/-- A sequence of code units has a surrogate without a partner: a high one that no low one follows,
or a low one that follows no high one. -/
def Unpaired (units : List Nat) : Prop :=
  ∃ before unit after, units = before ++ unit :: after ∧
    (Text.isHighSurrogate unit = true ∧ after.head?.any Text.isLowSurrogate = false ∨
      Text.isLowSurrogate unit = true ∧ before.getLast?.any Text.isHighSurrogate = false)

/-- Code units as Unicode mode spells them: two surrogates make one character, one that is left
alone is spelled by its stand-in. -/
def merge : List Nat → List Nat
  | high :: low :: rest =>
    if Text.isHighSurrogate high && Text.isLowSurrogate low then
      (0x10000 + (high - 0xD800) * 0x400 + (low - 0xDC00)) :: merge rest
    else standIn high :: merge (low :: rest)
  | [unit] => [standIn unit]
  | [] => []

/-! ## The pattern of a sequence of code units -/

theorem Quad.unique {digits digits' rest rest' : List Char} {unit unit' : Nat}
    (h : Quad digits unit) (h' : Quad digits' unit') (heq : digits ++ rest = digits' ++ rest') :
    unit = unit' := by
  obtain ⟨rfl, -⟩ := List.append_inj heq (h.1.trans h'.1.symm)
  exact Option.some.inj (h.2.symm.trans h'.2)

theorem Quad.lt {digits : List Char} {unit : Nat} (h : Quad digits unit) : unit < 0x10000 := by
  have small := Text.hexNumber?_lt h.2
  rwa [h.1] at small

theorem lowSurrogate?_escapes {source : List Char} {unit : Nat} {units : List Nat}
    (h : Escapes source (unit :: units)) (hunit : Text.isLowSurrogate unit = false) :
    lowSurrogate? source = none := by
  obtain ⟨digits, rest, rfl, hdigits, -⟩ := h.of_cons
  cases hread : lowSurrogate? ('\\' :: 'u' :: (digits ++ rest)) with
  | none => rfl
  | some found =>
    obtain ⟨low, after⟩ := found
    obtain ⟨hlow, others, hothers, heq⟩ := lowSurrogate?_eq_some.mp hread
    have heq : digits ++ rest = others ++ after := by simpa using heq
    rw [hdigits.unique hothers heq, hlow] at hunit
    cases hunit

theorem spellUnit_unpaired {unit : Nat} {rest : List Char}
    (h : Text.isHighSurrogate unit = true → lowSurrogate? rest = none) :
    spellUnit true unit rest = (scalarEscape (standIn unit), rest) := by
  cases hhigh : Text.isHighSurrogate unit with
  | false => exact spellUnit_alone (by rw [hhigh]; rfl) rest
  | true =>
    rw [spellUnit, h hhigh, hhigh]
    rfl

/-- The whole of a sequence of escapes is respelled as literal characters. A part of it need not be:
a high surrogate at its end looks for the low one after it. -/
theorem scalars_escapes {boundary : Boundary} {source : List Char} {units : List Nat}
    (h : Escapes source units) : Scalars (respellAt true boundary false source) (merge units) := by
  induction units using merge.induct generalizing source with
  | case1 high low rest hpair ih =>
    obtain ⟨hhigh, hlow⟩ := Bool.and_eq_true_iff.mp hpair
    obtain ⟨first, after, rfl, hfirst, hafter⟩ := h.of_cons
    obtain ⟨second, tail, rfl, hsecond, htail⟩ := hafter.of_cons
    rw [merge, if_pos hpair, respellAt_unit hfirst, spellUnit_pair hhigh hlow hsecond]
    refine .escaped ?_ (ih htail)
    simp only [Text.isHighSurrogate, Text.isLowSurrogate, Bool.and_eq_true,
      decide_eq_true_eq] at hhigh hlow
    rw [Nat.isValidChar]
    omega
  | case2 high low rest hpair ih =>
    obtain ⟨first, after, rfl, hfirst, hafter⟩ := h.of_cons
    have alone : Text.isHighSurrogate high = true → lowSurrogate? after = none := by
      intro hhigh
      refine lowSurrogate?_escapes hafter ?_
      simpa [hhigh] using hpair
    rw [merge, if_neg hpair, respellAt_unit hfirst, spellUnit_unpaired alone]
    exact .escaped (isValidChar_standIn hfirst.lt) (ih hafter)
  | case3 unit =>
    obtain ⟨digits, after, rfl, hdigits, hafter⟩ := h.of_cons
    cases hafter
    rw [merge, respellAt_unit hdigits, spellUnit_unpaired fun _ => rfl]
    exact .escaped (isValidChar_standIn hdigits.lt) .nil
  | case4 =>
    cases h
    exact .nil

theorem encode_true (cs : List Char) : encode true cs = cs.map Char.toNat := by
  induction cs with
  | nil => rfl
  | cons c cs ih => rw [encode_cons, encodeChar_single (.inl rfl), ih, List.map_cons]; rfl

theorem isMatch_escapes {source : List Char} {units : List Nat} (h : Escapes source units) :
    ∃ p, compile? true (String.ofList source) = some p ∧
      ∀ text : String, p.isMatch text = true ↔ merge units <:+: text.toList.map Char.toNat := by
  have scalars : Scalars (respellAt true .flagged false source) (merge units) := scalars_escapes h
  have parsed := scalars.readsAll.parse?_eq
  rw [← respell_eq, ← String.toList_ofList (l := source)] at parsed
  obtain ⟨p, hp, verdicts⟩ := compile?_of_parse? parsed
  refine ⟨p, hp, fun text => ?_⟩
  rw [verdicts, Regex.search_literals, encode_true]

/-! ## Stand-ins -/

def IsStandIn (n : Nat) : Prop := 0x10D800 ≤ n ∧ n < 0x10E000

theorem isStandIn_standIn {unit : Nat}
    (h : Text.isHighSurrogate unit = true ∨ Text.isLowSurrogate unit = true) :
    IsStandIn (standIn unit) := by
  simp only [Text.isHighSurrogate, Text.isLowSurrogate, Bool.and_eq_true, decide_eq_true_eq] at h
  rw [standIn_surrogate (by omega) (by omega), IsStandIn, surrogateBase]
  omega

theorem any_getLast?_append {p : Nat → Bool} (front : List Nat) {before : List Nat}
    (h : (front ++ before).getLast?.any p = false) : before.getLast?.any p = false := by
  rw [List.getLast?_append] at h
  cases hlast : before.getLast? with
  | none => rfl
  | some last => rwa [hlast] at h

/-- Among the characters that spell an unpaired surrogate there is a stand-in. -/
theorem exists_isStandIn {units : List Nat} (h : Unpaired units) :
    ∃ n ∈ merge units, IsStandIn n := by
  induction units using merge.induct with
  | case1 high low rest hpair ih =>
    obtain ⟨hhigh, hlow⟩ := Bool.and_eq_true_iff.mp hpair
    obtain ⟨before, unit, after, heq, alone⟩ := h
    have later : Unpaired rest := by
      rcases before with _ | ⟨first, _ | ⟨second, before⟩⟩
      · obtain ⟨rfl, rfl⟩ : high = unit ∧ low :: rest = after := by simpa using heq
        simp [Text.isHighSurrogate, Text.isLowSurrogate] at alone hhigh hlow
        omega
      · obtain ⟨rfl, rfl, rfl⟩ : high = first ∧ low = unit ∧ rest = after := by simpa using heq
        simp [Text.isHighSurrogate, Text.isLowSurrogate] at alone hhigh hlow
        omega
      · obtain ⟨rfl, rfl, rfl⟩ : high = first ∧ low = second ∧ rest = before ++ unit :: after := by
          simpa using heq
        refine ⟨before, unit, after, rfl, alone.imp_right fun hfree => ⟨hfree.1, ?_⟩⟩
        exact any_getLast?_append [high, low] hfree.2
    obtain ⟨n, hn, hstand⟩ := ih later
    rw [merge, if_pos hpair]
    exact ⟨n, List.mem_cons_of_mem _ hn, hstand⟩
  | case2 unit next rest hpair ih =>
    rw [merge, if_neg hpair]
    by_cases surrogate : Text.isHighSurrogate unit = true ∨ Text.isLowSurrogate unit = true
    · exact ⟨_, List.mem_cons_self, isStandIn_standIn surrogate⟩
    · obtain ⟨before, other, after, heq, alone⟩ := h
      rcases before with _ | ⟨first, before⟩
      · obtain ⟨rfl, -⟩ : unit = other ∧ next :: rest = after := by simpa using heq
        exact absurd (alone.imp And.left And.left) surrogate
      · obtain ⟨rfl, htail⟩ : unit = first ∧ next :: rest = before ++ other :: after := by
          simpa using heq
        have later : Unpaired (next :: rest) :=
          ⟨before, other, after, htail, alone.imp_right fun hfree =>
            ⟨hfree.1, any_getLast?_append [unit] hfree.2⟩⟩
        obtain ⟨n, hn, hstand⟩ := ih later
        exact ⟨n, List.mem_cons_of_mem _ hn, hstand⟩
  | case3 unit =>
    obtain ⟨before, other, after, heq, alone⟩ := h
    obtain ⟨rfl, rfl, rfl⟩ : before = [] ∧ unit = other ∧ after = [] := by
      cases before <;> simp_all
    exact ⟨_, List.mem_singleton_self _, isStandIn_standIn (alone.imp And.left And.left)⟩
  | case4 =>
    obtain ⟨before, other, after, heq, -⟩ := h
    simp at heq

/-- In Unicode mode the escapes of code units with an unpaired surrogate are a pattern that no text
matches, for the texts without a stand-in and for no other text. -/
theorem unpaired_unmatched_iff (text : String) :
    (∀ units source, Unpaired units → Escapes source units →
      ∃ p, compile? true (String.ofList source) = some p ∧ p.isMatch text = false) ↔
    ∀ c ∈ text.toList, ¬IsStandIn c.toNat := by
  constructor
  · intro h c hc hstand
    obtain ⟨low, high⟩ := hstand
    have surrogate : standIn (c.toNat - 0x100000) = c.toNat := by
      rw [standIn_surrogate (by omega) (by omega), surrogateBase]
      omega
    have unpaired : Unpaired [c.toNat - 0x100000] := by
      refine ⟨[], _, [], rfl, ?_⟩
      simp [Text.isHighSurrogate, Text.isLowSurrogate]
      omega
    have small : c.toNat - 0x100000 < 0x10000 := by omega
    obtain ⟨digits, hdigits⟩ := exists_quad small
    have spelled : Escapes ('\\' :: 'u' :: (digits ++ [])) [c.toNat - 0x100000] :=
      .cons hdigits .nil
    obtain ⟨p, hp, verdicts⟩ := isMatch_escapes spelled
    obtain ⟨q, hq, unmatched⟩ := h _ _ unpaired spelled
    obtain rfl : p = q := Option.some.inj (hp.symm.trans hq)
    have found : merge [c.toNat - 0x100000] <:+: text.toList.map Char.toNat := by
      rw [merge, surrogate]
      obtain ⟨before, after, htext⟩ := List.append_of_mem hc
      exact ⟨before.map Char.toNat, after.map Char.toNat, by simp [htext]⟩
    rw [(verdicts text).mpr found] at unmatched
    cases unmatched
  · intro h units source unpaired spelled
    obtain ⟨p, hp, verdicts⟩ := isMatch_escapes spelled
    refine ⟨p, hp, ?_⟩
    rw [Bool.eq_false_iff, Ne, verdicts]
    intro found
    obtain ⟨n, hn, hstand⟩ := exists_isStandIn unpaired
    obtain ⟨c, hc, rfl⟩ := List.mem_map.mp (found.subset hn)
    exact h c hc hstand

/-- The character U+10D800 matches the escape of a high surrogate, although no text has one. -/
theorem standIn_matches_surrogate :
    Unpaired [0xD800] ∧ Escapes "\\uD800".toList [0xD800] ∧
      ∃ p, compile? true "\\uD800" = some p ∧
        p.isMatch (String.singleton (Char.ofNat 0x10D800)) = true := by
  have digits : Quad "D800".toList 0xD800 := ⟨rfl, by decide⟩
  have spelled : Escapes "\\uD800".toList [0xD800] := .cons digits .nil
  have unpaired : Unpaired [0xD800] := ⟨[], _, [], rfl, .inl ⟨rfl, rfl⟩⟩
  obtain ⟨p, hp, verdicts⟩ := isMatch_escapes spelled
  rw [String.ofList_toList] at hp
  refine ⟨unpaired, spelled, p, hp, (verdicts _).mpr ?_⟩
  exact List.infix_rfl

end Pattern

end SchemaLogic
