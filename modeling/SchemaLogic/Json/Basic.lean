import SchemaLogic.Number.Numeric

/-! # JSON values

Numbers keep the kind in which they were written, and the members of an object stand in ascending
order of their names. -/
namespace SchemaLogic

/-- A natural number below 2 ^ 64, a negative integer -(n + 1), or any other number as binary64. -/
inductive Number where
  | natural (n : Fin (Nat.pow 2 64))
  | negative (n : Fin (Nat.pow 2 63))
  | real (b : Binary)
  deriving DecidableEq, Repr

namespace Number

def ofNat? (n : Nat) : Option Number :=
  if h : n < Nat.pow 2 64 then some (.natural ⟨n, h⟩) else none

def ofNeg? (n : Nat) : Option Number :=
  if h : 0 < n ∧ n - 1 < Nat.pow 2 63 then some (.negative ⟨n - 1, h.2⟩) else none

def toNumeric : Number → Numeric
  | .natural n => .natural n.val
  | .negative n => .integer (Int.negSucc n.val)
  | .real b => .real b

def equals (a b : Number) : Bool := a.toNumeric.equals b.toNumeric

/-- Equality within one kind; both zeros of the real kind are equal. -/
def same : Number → Number → Bool
  | .natural n, .natural m => n == m
  | .negative n, .negative m => n == m
  | .real a, .real b => (Numeric.real a).equals (.real b)
  | _, _ => false

def isInteger (n : Number) : Bool := n.toNumeric.isInteger

end Number

inductive Json where
  | null
  | bool (b : Bool)
  | number (n : Number)
  | string (s : String)
  | array (items : List Json)
  | object (members : List (String × Json))
  deriving Repr, Inhabited

namespace Json

abbrev Members := List (String × Json)

mutual

def depth : Json → Nat
  | .array items => depthItems items + 1
  | .object members => depthMembers members + 1
  | _ => 0
termination_by structural json => json

def depthItems : List Json → Nat
  | [] => 0
  | item :: rest => max item.depth (depthItems rest)
termination_by structural items => items

def depthMembers : Members → Nat
  | [] => 0
  | (_, value) :: rest => max value.depth (depthMembers rest)
termination_by structural members => members

end

mutual

def decEq : (a b : Json) → Decidable (a = b)
  | .null, .null => isTrue rfl
  | .bool a, .bool b =>
    if h : a = b then isTrue (h ▸ rfl) else isFalse fun k => h (by injection k)
  | .number a, .number b =>
    if h : a = b then isTrue (h ▸ rfl) else isFalse fun k => h (by injection k)
  | .string a, .string b =>
    if h : a = b then isTrue (h ▸ rfl) else isFalse fun k => h (by injection k)
  | .array a, .array b =>
    match decEqItems a b with
    | isTrue h => isTrue (h ▸ rfl)
    | isFalse h => isFalse fun k => h (by injection k)
  | .object a, .object b =>
    match decEqMembers a b with
    | isTrue h => isTrue (h ▸ rfl)
    | isFalse h => isFalse fun k => h (by injection k)
  | .null, .bool _ | .null, .number _ | .null, .string _ | .null, .array _ | .null, .object _
  | .bool _, .null | .bool _, .number _ | .bool _, .string _ | .bool _, .array _
  | .bool _, .object _
  | .number _, .null | .number _, .bool _ | .number _, .string _ | .number _, .array _
  | .number _, .object _
  | .string _, .null | .string _, .bool _ | .string _, .number _ | .string _, .array _
  | .string _, .object _
  | .array _, .null | .array _, .bool _ | .array _, .number _ | .array _, .string _
  | .array _, .object _
  | .object _, .null | .object _, .bool _ | .object _, .number _ | .object _, .string _
  | .object _, .array _ => isFalse fun k => nomatch k
termination_by structural json => json

def decEqItems : (a b : List Json) → Decidable (a = b)
  | [], [] => isTrue rfl
  | [], _ :: _ => isFalse fun k => nomatch k
  | _ :: _, [] => isFalse fun k => nomatch k
  | a :: as, b :: bs =>
    match decEq a b, decEqItems as bs with
    | isTrue h, isTrue k => isTrue (h ▸ k ▸ rfl)
    | isFalse h, _ => isFalse fun k => h (by injection k)
    | _, isFalse h => isFalse fun k => h (by injection k)
termination_by structural items => items

def decEqMembers : (a b : Members) → Decidable (a = b)
  | [], [] => isTrue rfl
  | [], _ :: _ => isFalse fun k => nomatch k
  | _ :: _, [] => isFalse fun k => nomatch k
  | (x, a) :: as, (y, b) :: bs =>
    if hx : x = y then
      match decEq a b, decEqMembers as bs with
      | isTrue h, isTrue k => isTrue (hx ▸ h ▸ k ▸ rfl)
      | isFalse h, _ => isFalse fun k => h (by injection k with k _; injection k)
      | _, isFalse h => isFalse fun k => h (by injection k)
    else isFalse fun k => hx (by injection k with k _; injection k)
termination_by structural members => members

end

instance : DecidableEq Json := decEq

/-- The members of an object in ascending order, a later value replacing an earlier one. -/
def insertMember (name : String) (value : Json) : Members → Members
  | [] => [(name, value)]
  | (other, old) :: rest =>
    if name < other then (name, value) :: (other, old) :: rest
    else if name = other then (name, value) :: rest
    else (other, old) :: insertMember name value rest

def ofMembers (members : Members) : Json :=
  .object (members.foldl (fun sorted (name, value) => insertMember name value sorted) [])

mutual

/-- Names in strictly ascending order, at every depth. -/
def Sorted : Json → Prop
  | .array items => SortedItems items
  | .object members => members.Pairwise (fun a b => a.1 < b.1) ∧ SortedMembers members
  | _ => True
termination_by structural json => json

def SortedItems : List Json → Prop
  | [] => True
  | item :: rest => item.Sorted ∧ SortedItems rest
termination_by structural items => items

def SortedMembers : Members → Prop
  | [] => True
  | (_, value) :: rest => value.Sorted ∧ SortedMembers rest
termination_by structural members => members

end

def members? : Json → Option Members
  | .object members => some members
  | _ => none

def items? : Json → Option (List Json)
  | .array items => some items
  | _ => none

def string? : Json → Option String
  | .string s => some s
  | _ => none

def get? (json : Json) (name : String) : Option Json := json.members?.bind (·.lookup name)

theorem mem_of_lookup {members : Members} {name : String} {value : Json}
    (h : members.lookup name = some value) : (name, value) ∈ members := by
  obtain ⟨before, after, rfl, -⟩ := List.lookup_eq_some_iff.mp h
  exact List.mem_append_right before (.head after)

def isArray : Json → Bool
  | .array _ => true
  | _ => false

end Json

end SchemaLogic
