import SchemaLogic.Proofs.Denotation
import SchemaLogic.Proofs.Realisation

/-! # Equality with a literal

Unrolled along the shape of a literal, the test for it says what equality of JSON values says. -/
namespace SchemaLogic

theorem Scaled.compare_eq_comm (u v : Scaled) : (u.compare v == .eq) = (v.compare u == .eq) := by
  simp only [Scaled.compare, Int.min_comm u.exponent]
  rw [Bool.eq_iff_iff, beq_iff_eq, beq_iff_eq]
  exact Std.OrientedCmp.eq_comm

theorem Numeric.equals_comm (a b : Numeric) : a.equals b = b.equals a := by
  have finite {u v : Scaled} :
      (some (u.compare v) == some Ordering.eq) = (some (v.compare u) == some .eq) :=
    Scaled.compare_eq_comm u v
  cases a <;> cases b <;> simp only [Numeric.equals, Numeric.compare?, Numeric.scaled?, finite]
  all_goals split <;> simp_all

theorem compare_beq_eq (n m : Nat) : (Ord.compare n m == .eq) = (n == m) := by
  rw [Bool.eq_iff_iff, beq_iff_eq, beq_iff_eq, Nat.compare_eq_eq]

namespace Json

theorem equalItems_eq (as all : List Json) (i : Nat) :
    equalItems as (all.drop i) =
      ((all.drop i).length == as.length &&
        (as.zipIdx i).all fun p => all[p.2]?.any p.1.equal) := by
  induction as generalizing i with
  | nil => cases hd : all.drop i <;> simp [equalItems]
  | cons a as ih =>
    cases hd : all.drop i with
    | nil => simp [equalItems]
    | cons b bs =>
      obtain ⟨hb, rfl⟩ : all[i]? = some b ∧ all.drop (i + 1) = bs := by
        constructor
        · have := congrArg (·[0]?) hd
          simpa using this
        · have := congrArg List.tail hd
          simpa using this
      rw [equalItems, ih, List.zipIdx_cons, List.all_cons, hb, Option.any_some, List.length_cons,
        List.length_cons, Bool.and_left_comm]
      simp

theorem equalMembers_eq (as bs : Members) :
    equalMembers as bs = as.all fun p => (bs.lookup p.1).any p.2.equal := by
  induction as with
  | nil => rfl
  | cons a as ih =>
    rw [equalMembers, ih, List.all_cons]
    cases bs.lookup a.1 <;> rfl

end Json

namespace Meaning

def equalToArray (items : List Json) : Meaning (Option Json) :=
  .conj (.look (·.hasType .array) :: .size .items .eq items.length ::
    (items.zipIdx 0).map fun p => (equalTo p.1).index p.2)

def equalToObject (members : Json.Members) : Meaning (Option Json) :=
  .conj (.look (·.hasType .plainObject) :: .size .keys .eq members.length ::
    members.map fun p => (equalTo p.2).property p.1)

theorem const?_equalToArray (items : List Json) : (equalToArray items).const? = none := by
  refine const?_joined_of_tests true ?_
  simp only [List.forall_mem_cons, List.forall_mem_map]
  exact ⟨rfl, rfl, fun _ _ => rfl⟩

theorem const?_equalToObject (members : Json.Members) : (equalToObject members).const? = none := by
  refine const?_joined_of_tests true ?_
  simp only [List.forall_mem_cons, List.forall_mem_map]
  exact ⟨rfl, rfl, fun _ _ => rfl⟩

theorem holds_equalToArray (items : List Json) (s : Option Json) :
    (equalToArray items).holds s = (equalTo (.array items)).holds s := by
  rw [equalToArray, holds_conj]
  cases s with
  | none => rfl
  | some v =>
    cases v with
    | array all =>
      have he : Json.equal (.array items) (.array all) = (all.length == items.length &&
          items.zipIdx.all fun p => all[p.2]?.any p.1.equal) := by
        rw [Json.equal]
        exact Json.equalItems_eq items all 0
      simp [he, Instance.hasType, Instance.measure?, Instance.items?, CmpOp.holds,
        Function.comp_def, compare_beq_eq]
    | _ => rfl

theorem holds_equalToObject (members : Json.Members) (s : Option Json) :
    (equalToObject members).holds s = (equalTo (.object members)).holds s := by
  rw [equalToObject, holds_conj]
  cases s with
  | none => rfl
  | some v =>
    cases v with
    | object all =>
      have he : Json.equal (.object members) (.object all) = (all.length == members.length &&
          members.all fun p => (all.lookup p.1).any p.2.equal) := by
        rw [Json.equal, Json.equalMembers_eq, Bool.beq_comm]
      simp [he, Instance.hasType, Instance.measure?, Instance.entries?, CmpOp.holds,
        Function.comp_def, Entries.size, Entries.get?, compare_beq_eq]
    | _ => rfl

end Meaning

namespace Realises

variable {base : Nat} {w : Stock} {visible : List Slot}

theorem equals {r : ValueRef} (scalar : Scalar) (hr : ∀ s ∈ r.slots, s ∈ visible) :
    Realises base w visible r.subject (.look (·.equalsScalar scalar)) (.equals r scalar) :=
  plain (fun _ => rfl) (fun _ => trivial) (fun _ => by cases scalar <;> rfl) hr

theorem hasType {r : ValueRef} (check : TypeCheck) (hr : ∀ s ∈ r.slots, s ∈ visible) :
    Realises base w visible r.subject (.look (·.hasType check)) (.hasType r check) :=
  plain (fun _ => rfl) (fun _ => trivial) (fun _ => by cases check <;> rfl) hr

mutual

theorem equalTo : ∀ (literal : Json) {r : ValueRef}, (∀ s ∈ r.slots, s ∈ visible) →
    Realises base w visible r.subject (.equalTo literal) (Expr.equalTo r literal)
  | .null, _, hr => (hasType .null hr).congr rfl fun s => by
    rcases s with _ | v
    · rfl
    · cases v <;> rfl
  | .bool b, _, hr => (equals (.bool b) hr).congr rfl fun s => by
    rcases s with _ | v
    · rfl
    · cases v with
      | bool a => exact Bool.beq_comm
      | _ => rfl
  | .number n, _, hr => (equals (.number n.toNumeric) hr).congr rfl fun s => by
    rcases s with _ | v
    · rfl
    · cases v with
      | number a => exact Numeric.equals_comm _ _
      | _ => rfl
  | .string text, _, hr => (equals (.string text) hr).congr rfl fun s => by
    rcases s with _ | v
    · rfl
    · cases v with
      | string a => exact Bool.beq_comm
      | _ => rfl
  | .array items, _, hr =>
    (conj (.cons (hasType .array hr) (.cons (size .items .eq items.length hr)
      (equalToItems items 0 hr)))).congr (Meaning.const?_equalToArray items)
        (Meaning.holds_equalToArray items)
  | .object members, _, hr =>
    (conj (.cons (hasType .plainObject hr) (.cons (size .keys .eq members.length hr)
      (equalToMembers members hr)))).congr (Meaning.const?_equalToObject members)
        (Meaning.holds_equalToObject members)
termination_by structural literal => literal

theorem equalToItems : ∀ (items : List Json) {r : ValueRef} (i : Nat),
    (∀ s ∈ r.slots, s ∈ visible) →
    List.Forall₂ (Realises base w visible r.subject)
      ((items.zipIdx i).map fun p => (Meaning.equalTo p.1).index p.2) (Expr.equalToItems r i items)
  | [], _, _, _ => .nil
  | item :: rest, r, i, hr =>
    .cons (equalTo item (r := .index r i) hr).index (equalToItems rest (i + 1) hr)
termination_by structural items => items

theorem equalToMembers : ∀ (members : Json.Members) {r : ValueRef},
    (∀ s ∈ r.slots, s ∈ visible) →
    List.Forall₂ (Realises base w visible r.subject)
      (members.map fun p => (Meaning.equalTo p.2).property p.1) (Expr.equalToMembers r members)
  | [], _, _ => .nil
  | (name, value) :: rest, r, hr =>
    .cons (equalTo value (r := .property r name) hr).property (equalToMembers rest hr)
termination_by structural members => members

end

end Realises

end SchemaLogic
