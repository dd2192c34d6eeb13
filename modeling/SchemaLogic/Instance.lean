import SchemaLogic.Reference.Pointer

/-! # Values under test

Besides JSON values there are missing values and the keys met while the entries of an object or an
array are visited. -/
namespace SchemaLogic

/-- The name of an object's member or the index of an array's item. -/
inductive Key where
  | name (text : String)
  | index (i : Nat)
  deriving DecidableEq, Repr

def Key.text : Key → String
  | .name text => text
  | .index i => toString i

/-- An object, or an array seen as an object with its indices for names. -/
inductive Entries where
  | members (all : Json.Members)
  | items (all : List Json)
  deriving Repr

namespace Entries

def size : Entries → Nat
  | .members all => all.length
  | .items all => all.length

def get? (entries : Entries) (name : String) : Option Json :=
  match entries with
  | .members all => all.lookup name
  | .items all => (Pointer.parseIndex? name.toList).bind (all[·]?)

def keys : Entries → List Key
  | .members all => all.map fun (name, _) => .name name
  | .items all => (List.range all.length).map .index

end Entries

inductive Instance where
  | missing
  | value (json : Json)
  | key (k : Key)
  deriving Repr, Inhabited

namespace Instance

def ofOption : Option Json → Instance
  | some json => .value json
  | none => .missing

def isPresent : Instance → Bool
  | .missing => false
  | _ => true

def text? : Instance → Option String
  | .value (.string s) => some s
  | .key k => some k.text
  | _ => none

def number? : Instance → Option Number
  | .value (.number n) => some n
  | _ => none

def items? : Instance → Option (List Json)
  | .value (.array items) => some items
  | _ => none

def entries? : Instance → Option Entries
  | .value (.object members) => some (.members members)
  | .value (.array items) => some (.items items)
  | _ => none

def property (i : Instance) (name : String) : Instance :=
  ofOption (i.entries?.bind (·.get? name))

def index (i : Instance) (n : Nat) : Instance := ofOption (i.items?.bind (·[n]?))

def member (i : Instance) (key : Instance) : Instance :=
  match i.entries? with
  | none => .missing
  | some entries =>
    match key, entries with
    | .key (.index n), .items all => ofOption all[n]?
    | .key k, entries => ofOption (entries.get? k.text)
    | .value (.string name), entries => ofOption (entries.get? name)
    | _, _ => .missing

end Instance

end SchemaLogic
