import Mathlib.Data.List.Perm.Subperm
import SchemaLogic.Proofs.Literal
import SchemaLogic.Proofs.NumberValue
import SchemaLogic.Proofs.Parts

/-! # Where the two equalities agree

Equality by value looks members up by their names and compares numbers of any kinds; equality within
kinds goes along two lists of members side by side. On values with their names in order and without
real numbers they are the same. -/
namespace SchemaLogic

namespace Json

def noReal : Json → Bool
  | .number (.real _) => false
  | _ => true

structure Whole (v : Json) : Prop where
  sorted : v.Sorted
  noReal : v.throughout Json.noReal = true

theorem sorted_array {items : List Json} :
    (Json.array items).Sorted ↔ ∀ item ∈ items, item.Sorted := by
  rw [Sorted]
  induction items with
  | nil => simp [SortedItems]
  | cons item rest ih => simp [SortedItems, ih]

theorem sorted_object {members : Members} : (Json.object members).Sorted ↔
    members.Pairwise (fun a b => a.1 < b.1) ∧ ∀ member ∈ members, member.2.Sorted := by
  have inner : SortedMembers members ↔ ∀ member ∈ members, member.2.Sorted := by
    induction members with
    | nil => simp [SortedMembers]
    | cons member rest ih => simp [SortedMembers, ih]
  rw [Sorted, inner]

theorem Whole.item {items : List Json} (h : (Json.array items).Whole) {item : Json}
    (hi : item ∈ items) : item.Whole :=
  ⟨sorted_array.mp h.sorted item hi, (throughout_array.mp h.noReal).2 item hi⟩

theorem Whole.member {members : Members} (h : (Json.object members).Whole)
    {member : String × Json} (hm : member ∈ members) : member.2.Whole :=
  ⟨(sorted_object.mp h.sorted).2 member hm, (throughout_object.mp h.noReal).2 member hm⟩

end Json

/-! ## Numbers -/

theorem Number.same_eq_equals {a b : Number} (ha : Json.noReal (.number a) = true)
    (hb : Json.noReal (.number b) = true) : a.same b = a.equals b := by
  have apart (n m : ℕ) : (n : ℚ) ≠ (Int.negSucc m : ℤ) := by
    rw [← Int.cast_natCast, Ne, Int.cast_inj]
    omega
  rw [Bool.eq_iff_iff, equals_iff]
  cases a with
  | real _ => cases ha
  | natural n =>
    cases b with
    | real _ => cases hb
    | natural m => simp [same, value, Fin.ext_iff]
    | negative m => exact iff_of_false Bool.false_ne_true (apart n m)
  | negative n =>
    cases b with
    | real _ => cases hb
    | natural m => exact iff_of_false Bool.false_ne_true (apart m n).symm
    | negative m => simp [same, value, Fin.ext_iff]

/-! ## Lists side by side -/

section Lists

variable {α β γ : Type} {as : List α} {bs : List β}

theorem map_eq_map_iff_forall₂ {f : α → γ} {g : β → γ} :
    as.map f = bs.map g ↔ List.Forall₂ (fun a b => f a = g b) as bs := by
  rw [← List.forall₂_eq_eq_eq, List.forall₂_map_left_iff, List.forall₂_map_right_iff]

theorem forall₂_congr_of_mem {R S : α → β → Prop} (h : ∀ a ∈ as, ∀ b ∈ bs, (R a b ↔ S a b)) :
    List.Forall₂ R as bs ↔ List.Forall₂ S as bs := by
  rw [List.forall₂_iff_zip, List.forall₂_iff_zip]
  refine and_congr_right fun _ => forall_congr' fun a => forall_congr' fun b => ?_
  exact forall_congr' fun hab => h a (List.of_mem_zip hab).1 b (List.of_mem_zip hab).2

end Lists

/-! ## Members -/

namespace Json

variable {as bs : Members}

theorem lookup_of_sorted (hs : bs.Pairwise fun a b => a.1 < b.1) {b : String × Json}
    (hb : b ∈ bs) : bs.lookup b.1 = some b.2 := by
  obtain ⟨before, after, rfl⟩ := List.append_of_mem hb
  refine List.lookup_eq_some_iff.mpr ⟨before, after, rfl, fun a ha => ?_⟩
  have hlt : a.1 < b.1 := (List.pairwise_append.mp hs).2.2 a ha b (.head _)
  rw [bne_iff_ne]
  intro heq
  rw [heq] at hlt
  exact String.lt_irrefl _ hlt

/-- Members in order that are found among as many others have the same names as these. -/
theorem names_of_equalMembers (ha : as.Pairwise fun a b => a.1 < b.1)
    (hb : bs.Pairwise fun a b => a.1 < b.1) (hlen : as.length = bs.length)
    (h : equalMembers as bs = true) : as.map Prod.fst = bs.map Prod.fst := by
  have ordered {members : Members} (hm : members.Pairwise fun a b => a.1 < b.1) :
      (members.map Prod.fst).Pairwise (· < ·) := List.pairwise_map.mpr hm
  have distinct : (as.map Prod.fst).Nodup := by
    refine (ordered ha).imp fun hlt heq => ?_
    rw [heq] at hlt
    exact String.lt_irrefl _ hlt
  have found : as.map Prod.fst ⊆ bs.map Prod.fst := by
    intro name hname
    obtain ⟨a, hmem, rfl⟩ := List.mem_map.mp hname
    rw [equalMembers_eq, List.all_eq_true] at h
    have hany := h a hmem
    cases hlookup : bs.lookup a.1 with
    | none =>
      rw [hlookup] at hany
      cases hany
    | some b => exact List.mem_map.mpr ⟨_, mem_of_lookup hlookup, rfl⟩
  have perm : (as.map Prod.fst).Perm (bs.map Prod.fst) := by
    refine (List.subperm_of_subset distinct found).perm_of_length_le (Nat.le_of_eq ?_)
    rw [List.length_map, List.length_map, hlen]
  refine perm.eq_of_pairwise (fun x y _ _ hxy hyx => ?_) (ordered ha) (ordered hb)
  exact absurd hyx (String.lt_asymm hxy)

theorem sameMembers_iff : sameMembers as bs = true ↔
    List.Forall₂ (fun a b => a.1 = b.1 ∧ a.2.same b.2 = true) as bs := by
  induction as generalizing bs with
  | nil => cases bs <;> simp [sameMembers]
  | cons a as ih => cases bs <;> simp [sameMembers, ih]

/-- In order, as many members that are found among others stand side by side with them. -/
theorem equalMembers_iff (ha : as.Pairwise fun a b => a.1 < b.1)
    (hb : bs.Pairwise fun a b => a.1 < b.1) :
    as.length = bs.length ∧ equalMembers as bs = true ↔
      List.Forall₂ (fun a b => a.1 = b.1 ∧ a.2.equal b.2 = true) as bs := by
  rw [equalMembers_eq, List.all_eq_true]
  constructor
  · rintro ⟨hlen, found⟩
    have names : List.Forall₂ (fun a b => a.1 = b.1) as bs := by
      refine map_eq_map_iff_forall₂.mp (names_of_equalMembers ha hb hlen ?_)
      rw [equalMembers_eq, List.all_eq_true]
      exact found
    refine List.forall₂_iff_zip.mpr ⟨hlen, fun {a b} hab => ?_⟩
    have hname : a.1 = b.1 := List.forall₂_zip names hab
    have hequal := found a (List.of_mem_zip hab).1
    rw [hname, lookup_of_sorted hb (List.of_mem_zip hab).2] at hequal
    exact ⟨hname, hequal⟩
  · intro h
    refine ⟨h.length_eq, fun a hmem => ?_⟩
    obtain ⟨i, hi, rfl⟩ := List.mem_iff_getElem.mp hmem
    obtain ⟨hname, hequal⟩ := h.get hi (h.length_eq ▸ hi)
    have found := lookup_of_sorted hb (List.get_mem bs ⟨i, h.length_eq ▸ hi⟩)
    rw [List.get_eq_getElem] at hname
    rw [hname, found]
    exact hequal

/-! ## Values -/

theorem sameItems_iff {as bs : List Json} :
    sameItems as bs = true ↔ List.Forall₂ (fun a b => a.same b = true) as bs := by
  induction as generalizing bs with
  | nil => cases bs <;> simp [sameItems]
  | cons a as ih => cases bs <;> simp [sameItems, ih]

theorem equalItems_iff {as bs : List Json} :
    equalItems as bs = true ↔ List.Forall₂ (fun a b => a.equal b = true) as bs := by
  induction as generalizing bs with
  | nil => cases bs <;> simp [equalItems]
  | cons a as ih => cases bs <;> simp [equalItems, ih]

/-- On values in order and without real numbers the two equalities are one. -/
theorem same_eq_equal {u v : Json} (hu : u.Whole) (hv : v.Whole) : u.same v = u.equal v := by
  induction u using Json.induction generalizing v with
  | number n =>
    cases v with
    | number m => exact Number.same_eq_equals hu.noReal hv.noReal
    | _ => rfl
  | array items ih =>
    cases v with
    | array others =>
      rw [Bool.eq_iff_iff, same, equal, sameItems_iff, equalItems_iff]
      exact forall₂_congr_of_mem fun a ha b hb => by rw [ih a ha (hu.item ha) (hv.item hb)]
    | _ => rfl
  | object members ih =>
    cases v with
    | object others =>
      rw [Bool.eq_iff_iff, same, equal, sameMembers_iff, Bool.and_eq_true, beq_iff_eq,
        equalMembers_iff (sorted_object.mp hu.sorted).1 (sorted_object.mp hv.sorted).1]
      exact forall₂_congr_of_mem fun a ha b hb => by rw [ih a ha (hu.member ha) (hv.member hb)]
    | _ => rfl
  | _ => cases v <;> rfl

end Json

end SchemaLogic
