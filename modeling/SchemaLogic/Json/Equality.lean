import SchemaLogic.Json.Basic

/-! # Two equalities of JSON values: by numeric value, and within number kinds -/
namespace SchemaLogic.Json

mutual

/-- Numbers by exact value, objects by names; an array never equals an object. -/
def equal : Json → Json → Bool
  | .null, .null => true
  | .bool a, .bool b => a == b
  | .number a, .number b => a.equals b
  | .string a, .string b => a == b
  | .array as, .array bs => equalItems as bs
  | .object as, .object bs => as.length == bs.length && equalMembers as bs
  | _, _ => false
termination_by structural json => json

def equalItems : List Json → List Json → Bool
  | [], [] => true
  | a :: as, b :: bs => equal a b && equalItems as bs
  | _, _ => false
termination_by structural items => items

def equalMembers : Members → Members → Bool
  | [], _ => true
  | (name, a) :: as, bs =>
    (match bs.lookup name with
      | some b => equal a b
      | none => false) && equalMembers as bs
termination_by structural members => members

end

mutual

/-- Like `equal`, but numbers of different kinds differ. -/
def same : Json → Json → Bool
  | .null, .null => true
  | .bool a, .bool b => a == b
  | .number a, .number b => a.same b
  | .string a, .string b => a == b
  | .array as, .array bs => sameItems as bs
  | .object as, .object bs => sameMembers as bs
  | _, _ => false
termination_by structural json => json

def sameItems : List Json → List Json → Bool
  | [], [] => true
  | a :: as, b :: bs => same a b && sameItems as bs
  | _, _ => false
termination_by structural items => items

def sameMembers : Members → Members → Bool
  | [], [] => true
  | (x, a) :: as, (y, b) :: bs => x == y && same a b && sameMembers as bs
  | _, _ => false
termination_by structural members => members

end

def allDiffer (eq : Json → Json → Bool) : List Json → Bool
  | [] => true
  | item :: rest => rest.all (fun other => !eq item other) && allDiffer eq rest

/-- No two positions hold values that an equality identifies. -/
def isUnique (eq : Json → Json → Bool) : List Json → Bool
  | [] | [_] => true
  | [first, second] => !eq first second
  | items => allDiffer eq items

theorem isUnique_eq_allDiffer (eq : Json → Json → Bool) (items : List Json) :
    isUnique eq items = allDiffer eq items := by
  unfold isUnique
  split <;> simp [allDiffer]

end SchemaLogic.Json
