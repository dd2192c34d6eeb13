import SchemaLogic.Pattern.Dialect

/-! # Texts as the matchers see them

In Unicode mode a text is matched as its characters, otherwise as its code units, each surrogate
replaced by its stand-in. Stand-ins come in pairs of their own kind and no character up to U+FFFF is
one of them, so the encoded text still tells the characters apart. -/
namespace SchemaLogic.Pattern

theorem toNat_cases (c : Char) : c.toNat < 0xD800 ∨ 0xE000 ≤ c.toNat ∧ c.toNat < 0x110000 := by
  rcases c.valid with h | ⟨h, h'⟩
  · exact .inl h
  · exact .inr ⟨h, h'⟩

def standIn (unit : Nat) : Nat := if Text.isSurrogate unit then surrogateBase + unit else unit

theorem standIn_surrogate {unit : Nat} (h : 0xD800 ≤ unit) (h' : unit < 0xE000) :
    standIn unit = surrogateBase + unit := by
  simp [standIn, Text.isSurrogate, h, h']

theorem standIn_other {unit : Nat} (h : unit < 0xD800 ∨ 0xE000 ≤ unit) : standIn unit = unit := by
  have other : ¬(0xD800 ≤ unit ∧ unit < 0xE000) := by omega
  simp [standIn, Text.isSurrogate, other]

theorem mem_unitsOf_lt {c : Char} {unit : Nat} (h : unit ∈ Text.unitsOf c) : unit < 0x10000 := by
  have bounds := toNat_cases c
  rw [Text.unitsOf] at h
  split at h
  · rw [List.mem_singleton.mp h]
    omega
  · simp only [List.mem_cons, List.not_mem_nil, or_false] at h
    omega

section Encoding

variable {unicode : Bool}

theorem encodeChar_single {c : Char} (h : unicode = true ∨ c.toNat ≤ 0xFFFF) :
    encodeChar unicode c = [c.toNat] := by
  rw [encodeChar, if_pos (by simpa using h)]

theorem encodeChar_pair {c : Char} (h : 0xFFFF < c.toNat) :
    encodeChar false c = [surrogateBase + (0xD800 + (c.toNat - 0x10000) / 0x400),
      surrogateBase + (0xDC00 + (c.toNat - 0x10000) % 0x400)] := by
  have beyond : ¬c.toNat ≤ 0xFFFF := Nat.not_le.mpr h
  rw [encodeChar, if_neg (by simpa using beyond), Text.unitsOf, if_neg beyond]
  rfl

theorem encodeChar_false (c : Char) : encodeChar false c = (Text.unitsOf c).map standIn := by
  have bounds := toNat_cases c
  by_cases h : c.toNat ≤ 0xFFFF
  · rw [encodeChar_single (.inr h), Text.unitsOf, if_pos h, List.map_singleton,
      standIn_other (by omega)]
  · rw [encodeChar_pair (Nat.lt_of_not_le h), Text.unitsOf, if_neg h, List.map_cons, List.map_cons,
      List.map_nil, standIn_surrogate (by omega) (by omega),
      standIn_surrogate (by omega) (by omega)]

theorem encode_false (cs : List Char) :
    encode false cs = (cs.flatMap Text.unitsOf).map standIn := by
  have each : encodeChar false = fun c => (Text.unitsOf c).map standIn := funext encodeChar_false
  rw [encode, List.map_flatMap, each]

theorem encode_cons (c : Char) (cs : List Char) :
    encode unicode (c :: cs) = encodeChar unicode c ++ encode unicode cs := List.flatMap_cons

/-- No character's encoding starts another one's. -/
theorem encodeChar_prefix_iff {c d : Char} {as bs : List Nat} :
    encodeChar unicode c ++ as <+: encodeChar unicode d ++ bs ↔ c = d ∧ as <+: bs := by
  have hc := toNat_cases c
  have hd := toNat_cases d
  have same : c.toNat = d.toNat ↔ c = d := Char.toNat_inj
  by_cases h : unicode = true ∨ c.toNat ≤ 0xFFFF <;>
    by_cases h' : unicode = true ∨ d.toNat ≤ 0xFFFF
  · rw [encodeChar_single h, encodeChar_single h', List.singleton_append, List.singleton_append,
      List.cons_prefix_cons, same]
  all_goals
    have mode : unicode = false := by grind
    subst mode
    simp only [Bool.false_eq_true, false_or, Nat.not_le] at h h'
  · rw [encodeChar_single (.inr h), encodeChar_pair h', List.singleton_append, List.cons_append,
      List.cons_prefix_cons, ← same, surrogateBase]
    omega
  · rw [encodeChar_pair h, encodeChar_single (.inr h'), List.singleton_append, List.cons_append,
      List.cons_prefix_cons, ← same, surrogateBase]
    omega
  · rw [encodeChar_pair h, encodeChar_pair h']
    simp only [List.cons_append, List.nil_append, List.cons_prefix_cons]
    rw [← same, ← and_assoc]
    refine and_congr_left fun _ => ?_
    omega

theorem encodeChar_ne_nil (c : Char) : encodeChar unicode c ≠ [] := by
  rw [encodeChar, Text.unitsOf]
  split
  · exact List.cons_ne_nil _ _
  · split <;> exact List.cons_ne_nil _ _

/-- Encoding keeps and reflects what a text starts with. -/
theorem encode_prefix_iff {cs ds : List Char} :
    encode unicode cs <+: encode unicode ds ↔ cs <+: ds := by
  induction cs generalizing ds with
  | nil => simp [encode]
  | cons c cs ih =>
    cases ds with
    | nil =>
      have written : encodeChar unicode c ≠ [] := encodeChar_ne_nil c
      simp [encode, written]
    | cons d ds => rw [encode_cons, encode_cons, encodeChar_prefix_iff, ih, List.cons_prefix_cons]

theorem encode_inj {cs ds : List Char} : encode unicode cs = encode unicode ds ↔ cs = ds := by
  refine ⟨fun h => ?_, congrArg _⟩
  have left : encode unicode cs <+: encode unicode ds := h ▸ List.prefix_rfl
  have right : encode unicode ds <+: encode unicode cs := h ▸ List.prefix_rfl
  rw [encode_prefix_iff] at left right
  exact left.eq_of_length (Nat.le_antisymm left.length_le right.length_le)

end Encoding

end SchemaLogic.Pattern
