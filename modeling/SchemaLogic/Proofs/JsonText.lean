import SchemaLogic.Json.Parser
import SchemaLogic.Proofs.NumberText
import SchemaLogic.Proofs.Parts
import SchemaLogic.Schema.TypeSet

/-! # Different values have different texts

The text of a value is read from its start. The first character tells the type of the value, quoted
texts end at their closing quote, and a number ends before the first character that numbers do not
have. So a text with something after it determines both the value and what comes after. -/
namespace SchemaLogic

namespace Json

/-! ## Quoted texts -/

theorem hexValue?_hexDigit : ∀ n < 16, Text.hexValue? (hexDigit n) = some n := by decide

theorem char?_toNat (c : Char) : char? c.toNat = some c := by
  have valid : c.toNat.isValidChar := c.valid
  rw [char?, dif_pos valid]
  exact congrArg some (Char.ext (UInt32.toNat_inj.mp rfl))

theorem hexUnit?_control {n : Nat} (h : n < 32) :
    hexUnit? '0' '0' (hexDigit (n / 16)) (hexDigit (n % 16)) = some n := by
  have zeros : Text.hexNumber? ['0', '0'] = some 0 := by decide
  have number := Text.hexNumber?_concat
    (Text.hexNumber?_concat zeros (hexValue?_hexDigit (n / 16) (by omega)))
    (hexValue?_hexDigit (n % 16) (by omega))
  rw [Nat.mul_zero, Nat.zero_add, Nat.div_add_mod] at number
  exact number

theorem parseString?_escapeChar (acc : List Char) (c : Char) (rest : List Char) :
    parseString? acc (escapeChar c ++ rest) = parseString? (c :: acc) rest := by
  have numbered {k : Nat} (d : Char) (h : c.toNat = k) (hd : d.toNat = k) : c = d :=
    Char.ext (UInt32.toNat_inj.mp (h.trans hd.symm))
  unfold escapeChar
  split
  · next h => rw [h]; rfl
  split
  · next h => rw [h]; rfl
  split
  · next h => rw [numbered '\x08' h rfl]; rfl
  split
  · next h => rw [numbered '\t' h rfl]; rfl
  split
  · next h => rw [numbered '\n' h rfl]; rfl
  split
  · next h => rw [numbered '\x0c' h rfl]; rfl
  split
  · next h => rw [numbered '\r' h rfl]; rfl
  split
  · next h =>
    have plain : ¬(0xD800 ≤ c.toNat ∧ c.toNat < 0xDC00) := by omega
    simp only [List.cons_append, List.nil_append, parseString?, hexUnit?_control h, if_neg plain,
      char?_toNat]
  · next hquote hslash _ _ _ _ _ hcontrol =>
    have plain : ¬(c.toNat < 32 ∨ c = '\\') := by simp [hcontrol, hslash]
    rw [List.singleton_append, parseString?.eq_def]
    split <;> simp_all

/-- A quoted text reads as itself, whatever comes after it. -/
theorem parseString?_quoted (acc cs rest : List Char) :
    parseString? acc (cs.flatMap escapeChar ++ '"' :: rest) =
      some (String.ofList (acc.reverse ++ cs), rest) := by
  induction cs generalizing acc with
  | nil => rw [List.flatMap_nil, List.nil_append, List.append_nil]; rfl
  | cons c cs ih =>
    rw [List.flatMap_cons, List.append_assoc, parseString?_escapeChar, ih, List.reverse_cons,
      List.append_assoc, List.singleton_append]

theorem toList_quote (s : String) :
    (quote s).toList = '"' :: (s.toList.flatMap escapeChar ++ ['"']) := by
  rw [quote, String.toList_ofList]
  rfl

theorem quote_cancel {s t : String} {rest rest' : List Char}
    (h : (quote s).toList ++ rest = (quote t).toList ++ rest') : s = t ∧ rest = rest' := by
  have reads (u : String) (tail : List Char) :
      parseString? [] (((quote u).toList ++ tail).drop 1) = some (u, tail) := by
    rw [toList_quote, List.cons_append, List.drop_one, List.tail_cons, List.append_assoc,
      List.singleton_append, parseString?_quoted, List.reverse_nil, List.nil_append,
      String.ofList_toList]
  have both := reads s rest
  rw [h, reads t rest', Option.some.injEq, Prod.mk.injEq] at both
  exact ⟨both.1.symm, both.2.symm⟩

end Json

/-! ## Numbers and what follows them -/

def isDelimiter (c : Char) : Bool := c == ',' || c == ']' || c == '\x7d'

def Delimited (rest : List Char) : Prop := ∀ c ∈ rest.head?, isDelimiter c = true

theorem Numeral.isDelimiter_of_mem {n : Numeral} (h : n.Valid) {c : Char} (hc : c ∈ n.chars) :
    isDelimiter c = false := by
  have digit {d : Char} (hd : d.isDigit = true) : isDelimiter d = false := by
    rw [isDelimiter, beq_false_of_ne (ne_of_isDigit hd rfl), beq_false_of_ne (ne_of_isDigit hd rfl),
      beq_false_of_ne (ne_of_isDigit hd rfl)]
    rfl
  have whole {d : Char} (hd : d ∈ n.whole) := digit (h.digits d (List.mem_append_left _ hd))
  simp only [chars, significand, List.mem_append] at hc
  rcases hc with hc | (hc | hc) | hc
  · split at hc
    · rw [List.mem_singleton.mp hc]
      rfl
    · cases hc
  · exact whole hc
  · cases hf : n.fraction with
    | none => simp [hf] at hc
    | some fraction =>
      rw [hf, Option.elim_some] at hc
      rcases List.mem_cons.mp hc with rfl | hc
      · rfl
      · exact digit (h.digits c (List.mem_append_right _ (by rwa [hf])))
  · cases hp : n.power with
    | none => simp [hp] at hc
    | some p =>
      have valid := h.power p hp
      rw [hp, Option.elim_some, Power.chars] at hc
      rcases List.mem_cons.mp hc with rfl | hc
      · rcases valid.mark with hm | hm <;> rw [hm] <;> rfl
      · rcases List.mem_append.mp hc with hc | hc
        · rcases valid.sign c (Option.mem_toList.mp hc) with rfl | rfl <;> rfl
        · exact digit (valid.digits c hc)

/-- Two texts without characters that pass a test end where the first such characters are. -/
theorem append_cancel_at {p : Char → Bool} {cs ds rest rest' : List Char}
    (hcs : ∀ c ∈ cs, p c = false) (hds : ∀ c ∈ ds, p c = false)
    (hrest : ∀ c ∈ rest.head?, p c = true) (hrest' : ∀ c ∈ rest'.head?, p c = true)
    (h : cs ++ rest = ds ++ rest') : cs = ds ∧ rest = rest' := by
  have taken {xs tail : List Char} (hxs : ∀ c ∈ xs, p c = false)
      (htail : ∀ c ∈ tail.head?, p c = true) : (xs ++ tail).takeWhile (fun c => !p c) = xs := by
    rw [List.takeWhile_append_of_pos (by simpa using hxs)]
    cases tail with
    | nil => exact List.append_nil xs
    | cons c tail => rw [List.takeWhile_cons_of_neg (by simp [htail c rfl]), List.append_nil]
  have same : cs = ds := by rw [← taken hcs hrest, h, taken hds hrest']
  subst same
  exact ⟨rfl, List.append_cancel_left h⟩

theorem Number.text_cancel {m n : Number} {rest rest' : List Char} (hrest : Delimited rest)
    (hrest' : Delimited rest') (h : m.text.toList ++ rest = n.text.toList ++ rest') :
    m = n ∧ rest = rest' := by
  have plain (k : Number) : ∀ c ∈ k.text.toList, isDelimiter c = false := by
    obtain ⟨p, hp, htext, -⟩ := k.exists_numeral
    intro c hc
    exact p.isDelimiter_of_mem hp (htext ▸ hc)
  obtain ⟨htext, h⟩ := append_cancel_at (plain m) (plain n) hrest hrest' h
  exact ⟨text_injective (String.toList_inj.mp htext), h⟩

/-! ## Lists of texts -/

section Pieces

variable {α : Type} (f : α → List Char)

/-- A text determines its origin together with what follows it. -/
def Cancels (x : α) : Prop :=
  ∀ y rest rest', Delimited rest → Delimited rest' → f x ++ rest = f y ++ rest' →
    x = y ∧ rest = rest'

theorem intercalate_comma (x : α) (xs : List α) :
    [','].intercalate ((x :: xs).map f) = f x ++ xs.flatMap fun y => ',' :: f y := by
  induction xs generalizing x with
  | nil => simp
  | cons y ys ih =>
    have tail := ih y
    simp only [List.map_cons] at tail ⊢
    rw [List.intercalate_cons_cons, tail, List.flatMap_cons]
    simp

variable {f} {close : Char} {xs ys : List α} {rest rest' : List Char}

theorem delimited_pieces (hclose : isDelimiter close = true) (xs : List α) (rest : List Char) :
    Delimited ((xs.flatMap fun y => ',' :: f y) ++ close :: rest) := by
  intro c hc
  cases xs with
  | nil => exact Option.mem_some.mp hc ▸ hclose
  | cons x xs => exact Option.mem_some.mp hc ▸ rfl

theorem pieces_cancel (hclose : isDelimiter close = true) (hcomma : close ≠ ',')
    (ih : ∀ x ∈ xs, Cancels f x)
    (h : (xs.flatMap fun x => ',' :: f x) ++ close :: rest =
      (ys.flatMap fun y => ',' :: f y) ++ close :: rest') : xs = ys ∧ rest = rest' := by
  induction xs generalizing ys with
  | nil =>
    cases ys with
    | nil => exact ⟨rfl, (List.cons.inj h).2⟩
    | cons y ys => exact absurd (List.cons.inj h).1 hcomma
  | cons x xs hxs =>
    cases ys with
    | nil => exact absurd (List.cons.inj h).1.symm hcomma
    | cons y ys =>
      rw [List.flatMap_cons, List.flatMap_cons, List.cons_append, List.cons_append,
        List.cons_append, List.cons_append, List.append_assoc, List.append_assoc] at h
      obtain ⟨rfl, tails⟩ := ih x (by simp) y _ _ (delimited_pieces hclose xs rest)
        (delimited_pieces hclose ys rest') (List.cons.inj h).2
      obtain ⟨rfl, rests⟩ := hxs (fun z hz => ih z (.tail _ hz)) tails
      exact ⟨rfl, rests⟩

theorem intercalate_cancel (hclose : isDelimiter close = true) (hcomma : close ≠ ',')
    (hstart : ∀ y tail tail', f y ++ tail ≠ close :: tail') (ih : ∀ x ∈ xs, Cancels f x)
    (h : [','].intercalate (xs.map f) ++ close :: rest =
      [','].intercalate (ys.map f) ++ close :: rest') : xs = ys ∧ rest = rest' := by
  cases xs with
  | nil =>
    cases ys with
    | nil => exact ⟨rfl, (List.cons.inj h).2⟩
    | cons y ys =>
      rw [intercalate_comma, List.append_assoc] at h
      exact absurd h.symm (hstart y _ _)
  | cons x xs =>
    cases ys with
    | nil =>
      rw [intercalate_comma, List.append_assoc] at h
      exact absurd h (hstart x _ _)
    | cons y ys =>
      rw [intercalate_comma, intercalate_comma, List.append_assoc, List.append_assoc] at h
      obtain ⟨rfl, tails⟩ := ih x (by simp) y _ _ (delimited_pieces hclose xs rest)
        (delimited_pieces hclose ys rest') h
      obtain ⟨rfl, rests⟩ := pieces_cancel hclose hcomma (fun z hz => ih z (.tail _ hz)) tails
      exact ⟨rfl, rests⟩

end Pieces

/-! ## Values -/

namespace Json

def typeOf? (c : Char) : Option JsonType :=
  if c = 'n' then some .null
  else if c = 't' ∨ c = 'f' then some .boolean
  else if c = '"' then some .string
  else if c = '[' then some .array
  else if c = '\x7b' then some .object
  else if c.isDigit = true ∨ c = '.' ∨ c = '-' then some .number
  else none

def type : Json → JsonType
  | .null => .null
  | .bool _ => .boolean
  | .number _ => .number
  | .string _ => .string
  | .array _ => .array
  | .object _ => .object

def memberText (member : String × Json) : List Char :=
  (quote member.1).toList ++ ':' :: member.2.text.toList

theorem textItems_eq (items : List Json) : textItems items = items.map text := by
  induction items with
  | nil => rfl
  | cons item items ih => rw [textItems, ih, List.map_cons]

theorem textMembers_eq (members : Members) :
    (textMembers members).map String.toList = members.map memberText := by
  induction members with
  | nil => rfl
  | cons member members ih =>
    obtain ⟨name, value⟩ := member
    rw [textMembers, List.map_cons, List.map_cons, ih, memberText, String.toList_append,
      String.toList_append, List.append_assoc]
    rfl

theorem toList_array (items : List Json) : (array items).text.toList =
    '[' :: ([','].intercalate (items.map (·.text.toList)) ++ [']']) := by
  rw [text, textItems_eq, String.toList_append, String.toList_append, String.toList_intercalate,
    List.map_map]
  rfl

theorem toList_object (members : Members) : (object members).text.toList =
    '\x7b' :: ([','].intercalate (members.map memberText) ++ ['\x7d']) := by
  rw [text, String.toList_append, String.toList_append, String.toList_intercalate, textMembers_eq]
  rfl

theorem typeOf?_digit {c : Char} (h : c.isDigit = true) : typeOf? c = some .number := by
  have other {d : Char} (hd : d.isDigit = false) : c ≠ d := ne_of_isDigit h hd
  simp [typeOf?, other (d := 'n') rfl, other (d := 't') rfl, other (d := 'f') rfl,
    other (d := '"') rfl, other (d := '[') rfl, other (d := '\x7b') rfl, h]

/-- The first character of a text tells the type of the value. -/
theorem text_start (json : Json) :
    ∃ c tail, json.text.toList = c :: tail ∧ typeOf? c = some json.type := by
  cases json with
  | null => exact ⟨_, _, rfl, rfl⟩
  | bool b => cases b <;> exact ⟨_, _, rfl, rfl⟩
  | number n =>
    obtain ⟨p, hp, htext, -⟩ := n.exists_numeral
    obtain ⟨c, tail, hstart, hc⟩ := Numeral.unsigned_start hp
    rw [Numeral.chars, hstart] at htext
    cases hsign : p.negative with
    | true =>
      rw [hsign, if_pos rfl] at htext
      exact ⟨_, _, htext, rfl⟩
    | false =>
      rw [hsign, if_neg Bool.false_ne_true] at htext
      refine ⟨_, _, htext, ?_⟩
      rcases hc with hc | rfl
      · exact typeOf?_digit hc
      · rfl
  | string s => exact ⟨_, _, toList_quote s, rfl⟩
  | array items => exact ⟨_, _, toList_array items, rfl⟩
  | object members => exact ⟨_, _, toList_object members, rfl⟩

theorem type_of_text {a b : Json} {rest rest' : List Char}
    (h : a.text.toList ++ rest = b.text.toList ++ rest') : a.type = b.type := by
  obtain ⟨c, tail, ha, hc⟩ := a.text_start
  obtain ⟨d, tail', hb, hd⟩ := b.text_start
  rw [ha, hb] at h
  rw [(List.cons.inj h).1, hd] at hc
  exact (Option.some.inj hc).symm

theorem text_ne_close (json : Json) (rest rest' : List Char) :
    json.text.toList ++ rest ≠ ']' :: rest' := by
  obtain ⟨c, tail, htext, hc⟩ := json.text_start
  rw [htext]
  intro heq
  rw [(List.cons.inj heq).1] at hc
  cases hc

theorem memberText_ne_close (member : String × Json) (rest rest' : List Char) :
    memberText member ++ rest ≠ '\x7d' :: rest' := by
  rw [memberText, toList_quote]
  intro heq
  exact absurd (List.cons.inj heq).1 (by decide)

theorem memberText_cancel {member : String × Json} (h : Cancels (·.text.toList) member.2) :
    Cancels memberText member := by
  intro other rest rest' hrest hrest' heq
  rw [memberText, memberText, List.append_assoc, List.append_assoc] at heq
  obtain ⟨hname, hvalue⟩ := quote_cancel heq
  obtain ⟨hvalue, hrests⟩ := h other.2 rest rest' hrest hrest' (List.cons.inj hvalue).2
  exact ⟨Prod.ext hname hvalue, hrests⟩

theorem text_cancel (json : Json) : Cancels (·.text.toList) json := by
  induction json using Json.induction with
  | null =>
    intro b rest rest' _ _ h
    cases b with
    | null => exact ⟨rfl, List.append_cancel_left h⟩
    | _ => cases type_of_text h
  | bool b =>
    intro c rest rest' _ _ h
    cases c with
    | bool c => cases b <;> cases c <;> simp_all [text]
    | _ => cases type_of_text h
  | number n =>
    intro b rest rest' hrest hrest' h
    cases b with
    | number m =>
      obtain ⟨rfl, rests⟩ := Number.text_cancel hrest hrest' h
      exact ⟨rfl, rests⟩
    | _ => cases type_of_text h
  | string s =>
    intro b rest rest' _ _ h
    cases b with
    | string t =>
      obtain ⟨rfl, rests⟩ := quote_cancel h
      exact ⟨rfl, rests⟩
    | _ => cases type_of_text h
  | array items ih =>
    intro b rest rest' _ _ h
    cases b with
    | array others =>
      simp only [toList_array, List.cons_append, List.append_assoc, List.nil_append] at h
      obtain ⟨rfl, rests⟩ := intercalate_cancel rfl (by decide) text_ne_close ih (List.cons.inj h).2
      exact ⟨rfl, rests⟩
    | _ => cases type_of_text h
  | object members ih =>
    intro b rest rest' _ _ h
    cases b with
    | object others =>
      simp only [toList_object, List.cons_append, List.append_assoc, List.nil_append] at h
      obtain ⟨rfl, rests⟩ := intercalate_cancel rfl (by decide) memberText_ne_close
        (fun member hm => memberText_cancel (ih member hm)) (List.cons.inj h).2
      exact ⟨rfl, rests⟩
    | _ => cases type_of_text h

/-- Different values have different texts. -/
theorem text_injective : Function.Injective text := by
  intro a b h
  have none : Delimited [] := by
    intro c hc
    cases hc
  exact (text_cancel a b [] [] none none (congrArg (fun t : String => t.toList ++ []) h)).1

end Json

end SchemaLogic
