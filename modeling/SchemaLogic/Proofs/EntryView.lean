import SchemaLogic.Predicate.Basic
import SchemaLogic.Proofs.DecimalText
import SchemaLogic.Proofs.Equality

/-! # Objects and arrays as entries under keys

An entry is reached by its key, by the text of its key and by a name that is looked up. A name
stands for an index only as the decimal text of it, so all three ways lead to the same entries. -/
namespace SchemaLogic

/-! ## Indices and their texts -/

namespace Decimal

theorem digitChar_of_isDigit {c : Char} (h : c.isDigit = true) :
    c.toNat - '0'.toNat < 10 ∧ Nat.digitChar (c.toNat - '0'.toNat) = c := by
  have bounds : '0'.toNat ≤ c.toNat ∧ c.toNat ≤ '9'.toNat := by
    simp only [Char.isDigit, Bool.and_eq_true, decide_eq_true_eq] at h
    exact h
  have nine : '9'.toNat = '0'.toNat + 9 := rfl
  have small : c.toNat - '0'.toNat < 10 := by omega
  refine ⟨small, Char.toNat_inj.mp ?_⟩
  calc (Nat.digitChar (c.toNat - '0'.toNat)).toNat
      = '0'.toNat + (c.toNat - '0'.toNat) := Nat.toNat_digitChar_of_lt_ten small
    _ = c.toNat := by omega

theorem toDigits_append_digits {cs : List Char} (hcs : ∀ c ∈ cs, c.isDigit = true) {n : Nat}
    (hn : 0 < n) : Nat.toDigits 10 n ++ cs =
      Nat.toDigits 10 (cs.foldl (fun n c => 10 * n + (c.toNat - '0'.toNat)) n) := by
  induction cs generalizing n with
  | nil => exact List.append_nil _
  | cons c cs ih =>
    obtain ⟨small, char⟩ := digitChar_of_isDigit (hcs c (by simp))
    have next := Nat.toDigits_append_toDigits (b := 10) (by decide) hn small
    rw [Nat.toDigits_of_lt_base small, char] at next
    rw [List.foldl_cons, ← ih (fun d hd => hcs d (.tail _ hd)) (by omega), ← next,
      List.append_assoc, List.singleton_append]

structure Canonical (cs : List Char) : Prop where
  digits : ∀ c ∈ cs, c.isDigit = true
  written : cs ≠ []
  leading : cs.head? = some '0' → cs.length = 1

theorem Canonical.toDigits_ofDigits {cs : List Char} (h : Canonical cs) :
    Nat.toDigits 10 (ofDigits cs) = cs := by
  obtain ⟨digits, written, leading⟩ := h
  obtain ⟨c, cs, rfl⟩ := List.exists_cons_of_ne_nil written
  obtain ⟨small, char⟩ := digitChar_of_isDigit (digits c (by simp))
  have start : ofDigits (c :: cs) =
      cs.foldl (fun n c => 10 * n + (c.toNat - '0'.toNat)) (c.toNat - '0'.toNat) := by
    rw [ofDigits, List.foldl_cons, Nat.mul_zero, Nat.zero_add]
  rw [start]
  by_cases first : c = '0'
  · have single : cs = [] := by
      have := leading (congrArg some first)
      rw [List.length_cons] at this
      exact List.length_eq_zero_iff.mp (by omega)
    rw [single, first]
    rfl
  · have positive : 0 < c.toNat - '0'.toNat := by
      apply Nat.pos_of_ne_zero
      intro none
      rw [none] at char
      exact first char.symm
    rw [← toDigits_append_digits (fun d hd => digits d (.tail _ hd)) positive,
      Nat.toDigits_of_lt_base small, char, List.singleton_append]

theorem canonical_toDigits (i : Nat) : Canonical (Nat.toDigits 10 i) where
  digits := isDigit_of_mem_toDigits i
  written := Nat.toDigits_ne_nil
  leading := by
    induction i using Nat.strongRecOn with
    | ind i ih =>
      intro zero
      by_cases small : i < 10
      · rw [Nat.toDigits_of_lt_base small, List.length_singleton]
      · -- the first digit is that of a smaller positive number, which would have to be zero
        exfalso
        rw [Nat.toDigits_of_base_le (by decide) (by omega),
          List.head?_append_of_ne_nil _ Nat.toDigits_ne_nil] at zero
        have single := ih (i / 10) (by omega) zero
        obtain ⟨c, hc⟩ := List.length_eq_one_iff.mp single
        rw [hc, List.head?_cons, Option.some.injEq] at zero
        have value : Decimal.ofDigits [c] = i / 10 := by rw [← hc, ofDigits_toDigits]
        rw [zero] at value
        have none : Decimal.ofDigits ['0'] = 0 := rfl
        omega

end Decimal

namespace Pointer

open Decimal

theorem parseIndex?_iff_canonical {cs : List Char} {i : Nat} :
    parseIndex? cs = some i ↔ Canonical cs ∧ ofDigits cs = i ∧ i < Nat.pow 2 64 := by
  have guard : (cs.isEmpty || !cs.all Char.isDigit || (cs.head? == some '0' && cs.length != 1)) =
      true ↔ ¬Canonical cs := by
    constructor
    · rintro h ⟨digits, written, leading⟩
      have all : cs.all Char.isDigit = true := List.all_eq_true.mpr digits
      simp only [all, Bool.not_true, Bool.or_false, Bool.or_eq_true, List.isEmpty_iff, written,
        false_or, Bool.and_eq_true, beq_iff_eq, bne_iff_ne] at h
      exact h.2 (leading h.1)
    · intro h
      by_contra passed
      simp only [Bool.or_eq_true, not_or, List.isEmpty_iff, Bool.not_eq_true', Bool.not_eq_false,
        List.all_eq_true, Bool.and_eq_true, beq_iff_eq, bne_iff_ne, not_and, not_not] at passed
      exact h ⟨passed.1.2, passed.1.1, passed.2⟩
  rw [parseIndex?, Option.ite_none_left_eq_some, guard, not_not, and_congr_right_iff]
  intro _
  rw [Option.ite_none_right_eq_some, Option.some.injEq]
  constructor
  · rintro ⟨fits, rfl⟩
    exact ⟨rfl, fits⟩
  · rintro ⟨rfl, fits⟩
    exact ⟨fits, rfl⟩

/-- A text reads as an index if and only if it is the decimal text of it. -/
theorem parseIndex?_eq_some_iff {cs : List Char} {i : Nat} :
    parseIndex? cs = some i ↔ cs = Nat.toDigits 10 i ∧ i < Nat.pow 2 64 := by
  rw [parseIndex?_iff_canonical]
  constructor
  · rintro ⟨canonical, rfl, fits⟩
    exact ⟨canonical.toDigits_ofDigits.symm, fits⟩
  · rintro ⟨rfl, fits⟩
    exact ⟨canonical_toDigits i, ofDigits_toDigits i, fits⟩

end Pointer

/-! ## Entries -/

namespace Key

def Fits : Key → Prop
  | .name _ => True
  | .index i => i < Nat.pow 2 64

theorem toList_text_index (i : Nat) : (index i).text.toList = Nat.toDigits 10 i := by
  rw [text, Nat.toString_eq_ofList_toDigits, String.toList_ofList]

theorem text_index_inj {i j : Nat} (h : (index i).text = (index j).text) : i = j := by
  have digits := congrArg String.toList h
  rw [toList_text_index, toList_text_index] at digits
  exact Decimal.toDigits_inj digits

end Key

namespace Json

/-- What a value holds under a key: an object the value of a member under its name, an array an item
under its index. -/
inductive Entry : Json → Key → Json → Prop where
  | member {members name value} : (name, value) ∈ members →
      Entry (.object members) (.name name) value
  | item {items i value} : items[i]? = some value → Entry (.array items) (.index i) value

/-- The keys of one value have different texts. -/
theorem Entry.key_eq {json value other : Json} {k l : Key} (h : json.Entry k value)
    (h' : json.Entry l other) (htext : k.text = l.text) : k = l := by
  cases h with
  | member _ =>
    cases h' with
    | member _ => exact congrArg Key.name htext
  | item _ =>
    cases h' with
    | item _ => exact congrArg Key.index (Key.text_index_inj htext)

end Json

namespace Entries

variable {json value : Json} {entries : Entries} {k : Key}

theorem mem_keys_iff (he : (Instance.value json).entries? = some entries) :
    k ∈ entries.keys ↔ ∃ value, json.Entry k value := by
  cases json with
  | object members =>
    cases he
    constructor
    · intro hk
      obtain ⟨⟨name, value⟩, hm, rfl⟩ := List.mem_map.mp hk
      exact ⟨value, .member hm⟩
    · rintro ⟨value, hm⟩
      cases hm with
      | member hm => exact List.mem_map.mpr ⟨_, hm, rfl⟩
  | array items =>
    cases he
    constructor
    · intro hk
      obtain ⟨i, hi, rfl⟩ := List.mem_map.mp hk
      exact ⟨_, .item (List.getElem?_eq_getElem (List.mem_range.mp hi))⟩
    · rintro ⟨value, hv⟩
      cases hv with
      | item hi =>
        obtain ⟨bound, -⟩ := List.getElem?_eq_some_iff.mp hi
        exact List.mem_map.mpr ⟨_, List.mem_range.mpr bound, rfl⟩
  | _ => cases he

theorem get?_text (hs : json.Sorted) (he : (Instance.value json).entries? = some entries)
    (h : json.Entry k value) (hk : k.Fits) : entries.get? k.text = some value := by
  cases h with
  | member hm =>
    cases he
    exact Json.lookup_of_sorted (Json.sorted_object.mp hs).1 hm
  | item hi =>
    cases he
    have index := Pointer.parseIndex?_eq_some_iff.mpr ⟨Key.toList_text_index _, hk⟩
    rw [get?, index]
    exact hi

/-- What is found under a name is an entry whose key has the name for its text. -/
theorem entry_of_get? {name : String} (he : (Instance.value json).entries? = some entries)
    (h : entries.get? name = some value) : ∃ k, json.Entry k value ∧ k.text = name := by
  cases json with
  | object members =>
    cases he
    exact ⟨.name name, .member (Json.mem_of_lookup h), rfl⟩
  | array items =>
    cases he
    obtain ⟨i, hi, hitem⟩ := Option.bind_eq_some_iff.mp h
    refine ⟨.index i, .item hitem, String.toList_inj.mp ?_⟩
    rw [Key.toList_text_index]
    exact (Pointer.parseIndex?_eq_some_iff.mp hi).1.symm
  | _ => cases he

theorem length_keys (entries : Entries) : entries.keys.length = entries.size := by
  cases entries with
  | members all => exact List.length_map _
  | items all => rw [keys, List.length_map, List.length_range, size]

theorem nodup_texts (hs : json.Sorted) (he : (Instance.value json).entries? = some entries) :
    (entries.keys.map Key.text).Nodup := by
  have keys : entries.keys.Nodup := by
    cases json with
    | object members =>
      cases he
      refine (List.Pairwise.map _ ?_ (Json.sorted_object.mp hs).1)
      intro a b below same
      rw [Key.name.inj same] at below
      exact String.lt_irrefl _ below
    | array items =>
      cases he
      refine List.Pairwise.map _ ?_ (List.nodup_range (n := items.length))
      intro i j apart same
      exact apart (Key.index.inj same)
    | _ => cases he
  refine List.pairwise_map.mpr (keys.imp_of_mem ?_)
  intro k l hk hl apart same
  obtain ⟨_, hk⟩ := (mem_keys_iff he).mp hk
  obtain ⟨_, hl⟩ := (mem_keys_iff he).mp hl
  exact apart (hk.key_eq hl same)

theorem fits_of_entry (he : (Instance.value json).entries? = some entries)
    (hsize : entries.size < Nat.pow 2 64) (h : json.Entry k value) : k.Fits := by
  cases h with
  | member _ => trivial
  | item hi =>
    cases he
    obtain ⟨bound, -⟩ := List.getElem?_eq_some_iff.mp hi
    exact Nat.lt_trans bound hsize

theorem isSome_get?_iff {name : String} (hs : json.Sorted)
    (he : (Instance.value json).entries? = some entries) (hsize : entries.size < Nat.pow 2 64) :
    (entries.get? name).isSome = true ↔ name ∈ entries.keys.map Key.text := by
  rw [List.mem_map, Option.isSome_iff_exists]
  constructor
  · rintro ⟨value, hvalue⟩
    obtain ⟨k, hk, htext⟩ := entry_of_get? he hvalue
    exact ⟨k, (mem_keys_iff he).mpr ⟨value, hk⟩, htext⟩
  · rintro ⟨k, hk, rfl⟩
    obtain ⟨value, hvalue⟩ := (mem_keys_iff he).mp hk
    exact ⟨value, get?_text hs he hvalue (fits_of_entry he hsize hvalue)⟩

end Entries

namespace Instance

variable {json value : Json} {entries : Entries} {k : Key}

theorem property_value {name : String} (he : (Instance.value json).entries? = some entries) :
    (Instance.value json).property name = ofOption (entries.get? name) := by
  rw [property, he, Option.bind_some]

theorem isPresent_ofOption (json : Option Json) : (ofOption json).isPresent = json.isSome := by
  cases json <;> rfl

theorem member_string {name : String} (he : (Instance.value json).entries? = some entries) :
    (Instance.value json).member (.value (.string name)) = ofOption (entries.get? name) := by
  rw [member, he]

/-- A key leads to its entry without the detour over its text. -/
theorem member_key (hs : json.Sorted) (h : json.Entry k value) :
    (Instance.value json).member (.key k) = .value value := by
  cases h with
  | @member members name value hm =>
    have found : members.lookup name = some value :=
      Json.lookup_of_sorted (Json.sorted_object.mp hs).1 hm
    change ofOption (members.lookup name) = _
    rw [found]
    rfl
  | @item items i value hi =>
    change ofOption items[i]? = _
    rw [hi]
    rfl

end Instance

/-- The keys of an object or of an array have different texts and are as many as its entries. A name
is found, by look-up, by the test for an own entry and as a property, if and only if it is the text
of a key. The key, its text as a string and its text as a name lead to the same value. -/
theorem entries_coherent {json : Json} {entries : Entries} (hs : json.Sorted)
    (he : (Instance.value json).entries? = some entries) (hsize : entries.size < Nat.pow 2 64) :
    ((entries.keys.map Key.text).Nodup ∧ entries.keys.length = entries.size) ∧
    (∀ name, ((entries.get? name).isSome = true ↔ name ∈ entries.keys.map Key.text) ∧
      ∀ input pool call slots r, ValueRef.resolve input slots r = .value json →
        (((Expr.hasOwn r name).eval input pool call slots).1 = true ↔
          name ∈ entries.keys.map Key.text) ∧
        (((Expr.present (.property r name)).eval input pool call slots).1 = true ↔
          name ∈ entries.keys.map Key.text)) ∧
    (∀ k ∈ entries.keys, ∃ value, (Instance.value json).member (.key k) = .value value ∧
      (Instance.value json).member (.value (.string k.text)) = .value value ∧
      Instance.ofOption (entries.get? k.text) = .value value) ∧
    ∀ (text : String) (i : Nat), Pointer.parseIndex? text.toList = some i ↔
      text = toString i ∧ i < Nat.pow 2 64 := by
  refine ⟨⟨Entries.nodup_texts hs he, entries.length_keys⟩, fun name => ?_, fun k hk => ?_, ?_⟩
  · have found : (entries.get? name).isSome = true ↔ name ∈ entries.keys.map Key.text :=
      Entries.isSome_get?_iff hs he hsize
    refine ⟨found, fun input pool call slots r hr => ⟨?_, ?_⟩⟩
    · rw [← found, Expr.eval, hr, he]
      rfl
    · rw [← found, Expr.eval, ValueRef.resolve, hr, Instance.property_value he,
        Instance.isPresent_ofOption]
  · obtain ⟨value, hvalue⟩ := (Entries.mem_keys_iff he).mp hk
    have found := Entries.get?_text hs he hvalue (Entries.fits_of_entry he hsize hvalue)
    refine ⟨value, Instance.member_key hs hvalue, ?_, ?_⟩
    · rw [Instance.member_string he, found]
      rfl
    · rw [found]
      rfl
  · intro text i
    rw [Pointer.parseIndex?_eq_some_iff, ← Key.toList_text_index, String.toList_inj]
    rfl

/-- An array has an entry under the name of its last index, but not with a zero or a sign before
it. -/
theorem array_coherent :
    let json : Json := .array [.null, .bool true]
    let entries : Entries := .items [.null, .bool true]
    (json.Sorted ∧ (Instance.value json).entries? = some entries ∧
      entries.size < Nat.pow 2 64) ∧
    (entries.get? "1").isSome = true ∧ (entries.get? "01").isSome = false ∧
    ((Expr.hasOwn .input "+1").eval (.value json) [] (Routine.below .missing [] 0) #[]).1 = false ∧
    ∃ value, (Instance.value json).member (.key (.index 1)) = .value value ∧
      (Instance.value json).member (.value (.string "1")) = .value value := by
  intro json entries
  have hs : json.Sorted := by
    simp only [json, Json.Sorted, Json.SortedItems, and_self]
  have hsize : entries.size < Nat.pow 2 64 := by decide
  obtain ⟨-, found, led, -⟩ := entries_coherent hs rfl hsize
  have texts : entries.keys.map Key.text = ["0", "1"] := by decide +kernel
  refine ⟨⟨hs, rfl, hsize⟩, ?_, ?_, ?_, ?_⟩
  · rw [(found "1").1, texts]
    decide
  · rw [← Bool.not_eq_true, (found "01").1, texts]
    decide
  · rw [← Bool.not_eq_true, ((found "+1").2 _ _ _ _ _ rfl).1, texts]
    decide
  · obtain ⟨value, key, text, -⟩ := led (.index 1) (by decide)
    exact ⟨value, key, text⟩

end SchemaLogic
