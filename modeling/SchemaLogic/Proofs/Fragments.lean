import SchemaLogic.Proofs.EntryView

/-! # Every part of a document has a fragment

A fragment is written from the keys that lead to a part: tildes and slashes of a name are escaped,
then some characters are replaced by the numbers of their bytes. Reading undoes the first step
first. It still gives back the names, since neither step touches what the other one has written. -/
namespace SchemaLogic

namespace Pointer

/-! ## Writing -/

def isUnreserved (c : Char) : Bool :=
  c.isAlphanum || c == '-' || c == '.' || c == '_' || c == '~'

/-- Which characters are written as the numbers of their bytes: percent signs, and any others that
are not unreserved. -/
structure Escaping where
  escapes : Char → Bool
  percent : escapes '%' = true
  unreserved : ∀ c, isUnreserved c = true → escapes c = false

def escapeTilde (c : Char) : List Char :=
  if c = '~' then ['~', '0'] else if c = '/' then ['~', '1'] else [c]

def hexDigit (n : Nat) : Char := (Nat.digitChar n).toUpper

def percentByte (b : UInt8) : List Char :=
  ['%', hexDigit (b.toNat / 16), hexDigit (b.toNat % 16)]

def bytesOf (cs : List Char) : List UInt8 := cs.flatMap String.utf8EncodeChar

namespace Escaping

variable (e : Escaping)

def char (c : Char) : List Char :=
  if e.escapes c then (String.utf8EncodeChar c).flatMap percentByte else [c]

def segment : Key → List Char
  | .name name => (name.toList.flatMap escapeTilde).flatMap e.char
  | .index i => (toString i).toList

def fragment (path : List Key) : String := String.ofList (path.flatMap fun k => '/' :: e.segment k)

def full : Escaping where
  escapes c := !isUnreserved c
  percent := rfl
  unreserved c h := by rw [h]; rfl

end Escaping

/-! ## Tildes -/

section Tildes

variable {digit char : Char}

theorem replaceTilde_append {cs rest : List Char} (h : '~' ∉ cs) :
    replaceTilde digit char (cs ++ rest) = cs ++ replaceTilde digit char rest := by
  induction cs with
  | nil => rfl
  | cons c cs ih =>
    have hc : c ≠ '~' := fun same => h (same ▸ .head _)
    rw [List.cons_append, replaceTilde.eq_2 _ _ _ _ (fun _ _ same => absurd same hc),
      ih (fun hcs => h (.tail _ hcs)), List.cons_append]

theorem unescape_append {cs rest : List Char} (h : '~' ∉ cs) :
    unescape (cs ++ rest) = cs ++ unescape rest := by
  rw [unescape, replaceTilde_append h, replaceTilde_append h, unescape]

/-- The tilde that an escaped tilde leaves is not read together with what follows it. -/
theorem unescape_tilde (rest : List Char) :
    unescape ('~' :: '0' :: rest) = '~' :: unescape rest := by
  have zero : '~' ∉ ['0'] := by decide
  have first : replaceTilde '1' '/' ('~' :: '0' :: rest) =
      '~' :: '0' :: replaceTilde '1' '/' rest := by
    rw [replaceTilde, if_neg (by decide)]
    exact congrArg _ (replaceTilde_append zero)
  rw [unescape, first, replaceTilde, if_pos rfl, unescape]

theorem unescape_slash (rest : List Char) :
    unescape ('~' :: '1' :: rest) = '/' :: unescape rest := by
  have slash : '~' ∉ ['/'] := by decide
  rw [unescape, replaceTilde, if_pos rfl]
  exact replaceTilde_append slash

end Tildes

theorem hexDigit_spec : ∀ n < 16, Text.hexValue? (hexDigit n) = some n ∧
    (hexDigit n).toNat < 128 ∧ hexDigit n ≠ '~' ∧ hexDigit n ≠ '/' := by decide

theorem not_mem_percentByte {b : UInt8} {c : Char} (h : c = '~' ∨ c = '/') :
    c ∉ percentByte b := by
  have bound : b.toNat < 256 := b.toNat_lt
  obtain ⟨-, -, tilde, slash⟩ := hexDigit_spec (b.toNat / 16) (by omega)
  obtain ⟨-, -, tilde', slash'⟩ := hexDigit_spec (b.toNat % 16) (by omega)
  rcases h with rfl | rfl
  · simp [percentByte, tilde.symm, tilde'.symm]
  · simp [percentByte, slash.symm, slash'.symm]

namespace Escaping

variable (e : Escaping)

theorem not_mem_char {c d : Char} (h : d = '~' ∨ d = '/') (hc : c ≠ d) : d ∉ e.char c := by
  rw [char]
  split
  · intro hd
    obtain ⟨b, -, hb⟩ := List.mem_flatMap.mp hd
    exact not_mem_percentByte h hb
  · simpa using hc.symm

def spelled (c : Char) : List Char := (escapeTilde c).flatMap e.char

theorem char_unreserved {c : Char} (h : isUnreserved c = true) : e.char c = [c] := by
  rw [char, e.unreserved c h]
  rfl

theorem spelled_tilde : e.spelled '~' = ['~', '0'] := by
  simp [spelled, escapeTilde, e.char_unreserved (c := '~') rfl, e.char_unreserved (c := '0') rfl]

theorem spelled_slash : e.spelled '/' = ['~', '1'] := by
  simp [spelled, escapeTilde, e.char_unreserved (c := '~') rfl, e.char_unreserved (c := '1') rfl]

theorem spelled_other {c : Char} (htilde : c ≠ '~') (hslash : c ≠ '/') :
    e.spelled c = e.char c := by
  rw [spelled, escapeTilde, if_neg htilde, if_neg hslash, List.flatMap_singleton]

/-- A character of a name as it is written, after tildes are read. -/
def raw (c : Char) : List Char := if c = '~' ∨ c = '/' then [c] else e.char c

theorem unescape_spelled (c : Char) (rest : List Char) :
    unescape (e.spelled c ++ rest) = e.raw c ++ unescape rest := by
  by_cases htilde : c = '~'
  · subst htilde
    rw [spelled_tilde]
    exact unescape_tilde rest
  by_cases hslash : c = '/'
  · subst hslash
    rw [spelled_slash]
    exact unescape_slash rest
  · rw [e.spelled_other htilde hslash, raw, if_neg (not_or.mpr ⟨htilde, hslash⟩)]
    exact unescape_append (e.not_mem_char (.inl rfl) htilde)

theorem unescape_flatMap (cs : List Char) : unescape (cs.flatMap e.spelled) = cs.flatMap e.raw := by
  induction cs with
  | nil => rfl
  | cons c cs ih => rw [List.flatMap_cons, unescape_spelled, ih, List.flatMap_cons]

end Escaping

/-! ## Bytes -/

theorem toList_loop (bytes : ByteArray) (i : Nat) (acc : List UInt8) :
    ByteArray.toList.loop bytes i acc = acc.reverse ++ bytes.data.toList.drop i := by
  induction left : bytes.size - i generalizing i acc with
  | zero =>
    have passed : bytes.data.toList.length ≤ i := by
      change bytes.size ≤ i
      omega
    rw [ByteArray.toList.loop.eq_def, if_neg (by omega), List.drop_eq_nil_of_le passed,
      List.append_nil]
  | succ n ih =>
    have bound : i < bytes.data.toList.length := by
      change i < bytes.size
      omega
    have byte : bytes.get! i = bytes.data.toList[i] := by
      change bytes.data[i]! = _
      rw [getElem!_pos bytes.data i bound]
      rfl
    rw [ByteArray.toList.loop.eq_def, if_pos (by omega), ih (i + 1) _ (by omega), byte,
      List.drop_eq_getElem_cons bound, List.reverse_cons, List.append_assoc,
      List.singleton_append]

theorem toList_toUTF8 (cs : List Char) : (String.ofList cs).toUTF8.toList = bytesOf cs := by
  rw [String.toUTF8_eq_toByteArray, ByteArray.toList, toList_loop, String.toByteArray_ofList]
  exact List.toList_data_toByteArray

theorem ofBytes?_bytesOf (cs : List Char) : ofBytes? (bytesOf cs) = some (String.ofList cs) := by
  have bytes : (⟨(bytesOf cs).toArray⟩ : ByteArray) = cs.utf8Encode :=
    ByteArray.ext List.data_toByteArray.symm
  rw [ofBytes?, bytes, String.fromUTF8?, dif_pos ByteArray.isValidUTF8_utf8Encode]
  rfl

theorem percent_of_mem_bytes {c : Char} (h : 0x25 ∈ String.utf8EncodeChar c) : c = '%' := by
  have number (n : Nat) (hn : 0x25 = UInt8.ofNat n) : n % 256 = 37 := by
    rw [← UInt8.toNat_ofNat', ← hn]
    rfl
  apply Char.toNat_inj.mp
  change c.val.toNat = 37
  rw [String.utf8EncodeChar.eq_def] at h
  simp only at h
  split at h
  · have := number _ (List.mem_singleton.mp h)
    omega
  -- all bytes of a longer encoding are beyond those of single characters
  · exfalso
    split at h
    · simp only [List.mem_cons, List.not_mem_nil, or_false] at h
      rcases h with h | h <;> have := number _ h <;> omega
    · split at h
      · simp only [List.mem_cons, List.not_mem_nil, or_false] at h
        rcases h with h | h | h <;> have := number _ h <;> omega
      · simp only [List.mem_cons, List.not_mem_nil, or_false] at h
        rcases h with h | h | h | h <;> have := number _ h <;> omega

theorem percentDecode_append {bytes rest : List UInt8} (h : 0x25 ∉ bytes) :
    percentDecode (bytes ++ rest) = bytes ++ percentDecode rest := by
  induction bytes with
  | nil => rfl
  | cons b bytes ih =>
    have hb : b ≠ 0x25 := fun same => h (same ▸ .head _)
    rw [List.cons_append, percentDecode.eq_2 _ _ (fun _ _ _ same _ => hb same),
      ih (fun hbytes => h (.tail _ hbytes)), List.cons_append]

theorem utf8_ascii {c : Char} (h : c.toNat < 128) :
    String.utf8EncodeChar c = [UInt8.ofNat c.toNat] := by
  rw [String.utf8EncodeChar.eq_def]
  exact if_pos (Nat.le_of_lt_succ h)

theorem percentDecode_percentByte (b : UInt8) (rest : List UInt8) :
    percentDecode (bytesOf (percentByte b) ++ rest) = b :: percentDecode rest := by
  have bound : b.toNat < 256 := b.toNat_lt
  obtain ⟨high, ascii, -⟩ := hexDigit_spec (b.toNat / 16) (by omega)
  obtain ⟨low, ascii', -⟩ := hexDigit_spec (b.toNat % 16) (by omega)
  have back {c : Char} (hc : c.toNat < 128) : Char.ofNat (UInt8.ofNat c.toNat).toNat = c := by
    rw [UInt8.toNat_ofNat', Nat.mod_eq_of_lt (by omega), Char.ofNat_toNat]
  have number := Text.hexNumber?_concat (Text.hexNumber?_singleton high) low
  rw [Nat.div_add_mod, List.singleton_append] at number
  have bytes : bytesOf (percentByte b) = [0x25, UInt8.ofNat (hexDigit (b.toNat / 16)).toNat,
      UInt8.ofNat (hexDigit (b.toNat % 16)).toNat] := by
    rw [bytesOf, percentByte, List.flatMap_cons, List.flatMap_cons, List.flatMap_cons,
      utf8_ascii ascii, utf8_ascii ascii']
    rfl
  rw [bytes, List.cons_append, List.cons_append, List.cons_append, percentDecode, back ascii,
    back ascii', number]
  simp only [UInt8.ofNat_toNat]
  rfl

theorem percentDecode_escaped (bytes rest : List UInt8) :
    percentDecode (bytesOf (bytes.flatMap percentByte) ++ rest) = bytes ++ percentDecode rest := by
  induction bytes with
  | nil => rfl
  | cons b bytes ih =>
    rw [List.flatMap_cons, bytesOf, List.flatMap_append, List.append_assoc]
    exact (percentDecode_percentByte b _).trans (congrArg _ ih)

namespace Escaping

variable (e : Escaping)

theorem percentDecode_raw (c : Char) (rest : List UInt8) :
    percentDecode (bytesOf (e.raw c) ++ rest) = String.utf8EncodeChar c ++ percentDecode rest := by
  have plain (hc : c ≠ '%') : percentDecode (bytesOf [c] ++ rest) =
      String.utf8EncodeChar c ++ percentDecode rest := by
    rw [bytesOf, List.flatMap_singleton]
    exact percentDecode_append (fun h => hc (percent_of_mem_bytes h))
  rw [raw]
  split
  · next h =>
    apply plain
    rcases h with rfl | rfl <;> decide
  · rw [char]
    split
    · exact percentDecode_escaped _ rest
    · next h =>
      apply plain
      rintro rfl
      exact h e.percent

theorem percentDecode_flatMap (cs : List Char) :
    percentDecode (bytesOf (cs.flatMap e.raw)) = bytesOf cs := by
  induction cs with
  | nil => rfl
  | cons c cs ih =>
    rw [List.flatMap_cons, bytesOf, List.flatMap_append]
    exact (e.percentDecode_raw c _).trans (congrArg _ ih)

theorem raw_of_plain {c : Char} (h : '%' ∉ e.raw c) : e.raw c = [c] := by
  rw [raw, char] at h ⊢
  split
  · rfl
  · next other =>
    rw [if_neg other] at h
    split
    · next escaped =>
      obtain ⟨b, bytes, hbytes⟩ :=
        List.exists_cons_of_ne_nil (String.utf8EncodeChar_ne_nil (c := c))
      rw [if_pos escaped, hbytes] at h
      exact absurd (.head _) h
    · rfl

theorem flatMap_raw_of_plain {cs : List Char} (h : '%' ∉ cs.flatMap e.raw) :
    cs.flatMap e.raw = cs := by
  have each : ∀ c ∈ cs, e.raw c = [c] := by
    intro c hc
    apply e.raw_of_plain
    intro percent
    exact h (List.mem_flatMap.mpr ⟨c, hc, percent⟩)
  rw [List.flatMap_congr each, List.flatMap_singleton']

/-! ## Segments -/

theorem spelled_digit {c : Char} (h : c.isDigit = true) : e.spelled c = [c] := by
  rw [e.spelled_other (ne_of_isDigit h rfl) (ne_of_isDigit h rfl)]
  apply e.char_unreserved
  change (c.isAlpha || c.isDigit || c == '-' || c == '.' || c == '_' || c == '~') = true
  rw [h, Bool.or_true]
  rfl

theorem segment_eq (k : Key) : e.segment k = k.text.toList.flatMap e.spelled := by
  cases k with
  | name name => exact List.flatMap_assoc
  | index i =>
    have digits : ∀ c ∈ Nat.toDigits 10 i, e.spelled c = [c] := by
      intro c hc
      exact e.spelled_digit (isDigit_of_mem_toDigits i c hc)
    rw [Key.toList_text_index, List.flatMap_congr digits, List.flatMap_singleton']
    exact Key.toList_text_index i

/-- Every segment reads as the text of its key. -/
theorem decode?_segment (k : Key) : decode? (e.segment k) = some k.text := by
  have unescaped : unescape (e.segment k) = k.text.toList.flatMap e.raw := by
    rw [segment_eq, unescape_flatMap]
  simp only [decode?, unescaped, String.toList_ofList]
  split
  · rw [toList_toUTF8, percentDecode_flatMap, ofBytes?_bytesOf, String.ofList_toList]
  · next plain =>
    rw [e.flatMap_raw_of_plain (by simpa using plain), String.ofList_toList]

theorem slash_not_mem_segment (k : Key) : '/' ∉ e.segment k := by
  rw [segment_eq]
  intro h
  obtain ⟨c, -, hc⟩ := List.mem_flatMap.mp h
  by_cases htilde : c = '~'
  · subst htilde
    rw [spelled_tilde] at hc
    exact absurd hc (by decide)
  by_cases hslash : c = '/'
  · subst hslash
    rw [spelled_slash] at hc
    exact absurd hc (by decide)
  · rw [e.spelled_other htilde hslash] at hc
    exact e.not_mem_char (.inr rfl) hslash hc

end Escaping

/-! ## Fragments -/

section Split

variable {separator : Char} {cs : List Char}

theorem splitOn_ne_nil (separator : Char) (cs : List Char) : splitOn separator cs ≠ [] := by
  cases cs with
  | nil => exact List.cons_ne_nil _ _
  | cons c cs =>
    rw [splitOn]
    split
    · exact List.cons_ne_nil _ _
    · split <;> exact List.cons_ne_nil _ _

theorem splitOn_plain (h : separator ∉ cs) : splitOn separator cs = [cs] := by
  induction cs with
  | nil => rfl
  | cons c cs ih =>
    have hc : c ≠ separator := fun same => h (same ▸ .head _)
    rw [splitOn, ih (fun hcs => h (.tail _ hcs))]
    exact if_neg hc

theorem splitOn_append (h : separator ∉ cs) (rest : List Char) :
    splitOn separator (cs ++ separator :: rest) = cs :: splitOn separator rest := by
  induction cs with
  | nil =>
    obtain ⟨first, others, hrest⟩ := List.exists_cons_of_ne_nil (splitOn_ne_nil separator rest)
    rw [List.nil_append, splitOn, hrest]
    exact if_pos rfl
  | cons c cs ih =>
    have hc : c ≠ separator := fun same => h (same ▸ .head _)
    rw [List.cons_append, splitOn, ih (fun hcs => h (.tail _ hcs))]
    exact if_neg hc

end Split

namespace Escaping

variable (e : Escaping)

theorem splitOn_segments (k : Key) (path : List Key) :
    splitOn '/' (e.segment k ++ path.flatMap fun k => '/' :: e.segment k) =
      (k :: path).map e.segment := by
  induction path generalizing k with
  | nil => rw [List.flatMap_nil, List.append_nil, splitOn_plain (e.slash_not_mem_segment k)]; rfl
  | cons l path ih =>
    rw [List.flatMap_cons, List.cons_append, splitOn_append (e.slash_not_mem_segment k), ih]
    rfl

theorem resolve_eq_walk (document : Json) (path : List Key) :
    resolve document (e.fragment path) = walk (e.fragment path) document (path.map e.segment) := by
  cases path with
  | nil => rfl
  | cons k path =>
    have chars : (e.fragment (k :: path)).toList =
        '/' :: (e.segment k ++ path.flatMap fun k => '/' :: e.segment k) := by
      rw [fragment, String.toList_ofList]
      rfl
    rw [resolve, chars]
    simp only [splitOn_segments]

/-- A fragment tells the texts of the keys, whatever was escaped in it. -/
theorem texts_of_fragment {e e' : Escaping} {path other : List Key}
    (h : e.fragment path = e'.fragment other) : path.map Key.text = other.map Key.text := by
  have chars := String.ofList_inj.mp h
  cases path with
  | nil =>
    cases other with
    | nil => rfl
    | cons l other => cases chars
  | cons k path =>
    cases other with
    | nil => cases chars
    | cons l other =>
      have segments : (k :: path).map e.segment = (l :: other).map e'.segment := by
        rw [← splitOn_segments, ← splitOn_segments]
        exact congrArg _ (List.cons.inj chars).2
      have decoded := congrArg (List.map decode?) segments
      simp only [List.map_map, Function.comp_def, decode?_segment] at decoded
      rw [← List.map_inj_right (fun _ _ => Option.some.inj), List.map_map, List.map_map]
      exact decoded

end Escaping

end Pointer

namespace Json

inductive Reaches : Json → List Key → Json → Prop where
  | here {json} : Reaches json [] json
  | step {json part node k path} : json.Entry k part → Reaches part path node →
      Reaches json (k :: path) node

variable {json part : Json} {k : Key}

theorem Entry.sorted (hs : json.Sorted) (h : json.Entry k part) : part.Sorted := by
  cases h with
  | member hm => exact (sorted_object.mp hs).2 _ hm
  | item hi => exact sorted_array.mp hs _ (List.mem_of_getElem? hi)

theorem Entry.part_eq {other : Json} (hs : json.Sorted) (h : json.Entry k part)
    (h' : json.Entry k other) : part = other := by
  have led := Instance.member_key hs h
  rw [Instance.member_key hs h'] at led
  exact (Instance.value.inj led).symm

theorem Reaches.path_eq {document node other : Json} {path path' : List Key}
    (hs : document.Sorted) (h : document.Reaches path node) (h' : document.Reaches path' other)
    (htexts : path.map Key.text = path'.map Key.text) : path = path' := by
  induction h generalizing path' with
  | here => exact (List.map_eq_nil_iff.mp htexts.symm).symm
  | step hentry _ ih =>
    cases h' with
    | here => cases htexts
    | step hentry' hrest =>
      obtain ⟨htext, hrests⟩ := List.cons.inj htexts
      cases hentry.key_eq hentry' htext
      cases hentry.part_eq hs hentry'
      rw [ih (hentry.sorted hs) hrest hrests]

end Json

namespace Pointer

theorem step?_text {json part : Json} {k : Key} (hs : json.Sorted) (h : json.Entry k part)
    (hk : k.Fits) : step? json k.text = some part := by
  cases h with
  | member hm => exact Entries.get?_text hs rfl (.member hm) hk
  | item hi => exact Entries.get?_text hs rfl (.item hi) hk

theorem walk_segments {document node : Json} {path : List Key} (fragment : String) (e : Escaping)
    (hs : document.Sorted) (h : document.Reaches path node) (hk : ∀ k ∈ path, k.Fits) :
    walk fragment document (path.map e.segment) = .ok node := by
  induction h with
  | here => rfl
  | step hentry _ ih =>
    rw [List.map_cons, walk, e.decode?_segment]
    simp only [step?_text hs hentry (hk _ (by simp))]
    exact ih (hentry.sorted hs) (fun k hk' => hk k (.tail _ hk'))

/-- The fragment for a path resolves to what the path leads to, and no other path through the
document has that fragment, even if other characters are escaped in it. -/
theorem resolve_fragment {document node : Json} {path : List Key} (hs : document.Sorted)
    (h : document.Reaches path node) (hk : ∀ k ∈ path, k.Fits) (e : Escaping) :
    resolve document (e.fragment path) = .ok node ∧
      ∀ (e' : Escaping) (other : List Key) (node' : Json), document.Reaches other node' →
        e'.fragment other = e.fragment path → other = path := by
  constructor
  · rw [e.resolve_eq_walk]
    exact walk_segments _ e hs h hk
  · intro e' other node' hother same
    exact hother.path_eq hs h (Escaping.texts_of_fragment same)

/-- A name with a tilde before a digit, a slash, a percent sign and a letter of two bytes. -/
theorem resolve_escaped_name :
    let document : Json := .object [("", .null), ("~1/%é", .array [.null, .bool true])]
    let path : List Key := [.name "~1/%é", .index 1]
    document.Sorted ∧ document.Reaches path (.bool true) ∧ (∀ k ∈ path, k.Fits) ∧
      Escaping.full.fragment path = "/~01~1%25%C3%A9/1" ∧
      resolve document "/~01~1%25%C3%A9/1" = .ok (.bool true) := by
  intro document path
  have hs : document.Sorted := by
    simp only [document, Json.Sorted, Json.SortedItems, Json.SortedMembers]
    decide
  have member : document.Entry (.name "~1/%é") (.array [.null, .bool true]) := .member (by simp)
  have h : document.Reaches path (.bool true) := .step member (.step (.item rfl) .here)
  have hk : ∀ k ∈ path, k.Fits := by
    intro k hk
    simp only [path, List.mem_cons, List.not_mem_nil, or_false] at hk
    rcases hk with rfl | rfl
    · trivial
    · change 1 < Nat.pow 2 64
      decide
  have fragment : Escaping.full.fragment path = "/~01~1%25%C3%A9/1" := by decide +kernel
  exact ⟨hs, h, hk, fragment, fragment ▸ (resolve_fragment hs h hk .full).1⟩

end Pointer

end SchemaLogic
