import SchemaLogic.Reference.Pointer
import SchemaLogic.Text.Quoted

/-! # Replacing the references of a schema by their targets

Documents that were fetched are kept from one schema to the next; targets that were inlined are
kept within one schema. An error loses nothing that was fetched before it. -/
namespace SchemaLogic

/-- What is answered for an address: a document, or the cause why there is none. -/
abbrev Source := String → Except String Json

inductive Retriever where
  | absent
  | documents (entries : List (String × Json))

namespace Retriever

/-- Documents by address, the later of two with one address winning; a trailing `#` of an
address does not count. -/
def ofList (entries : List (String × Json)) : Retriever :=
  let trim := fun uri : String => String.ofList (uri.toList.reverse.dropWhile (· == '#')).reverse
  .documents (entries.reverse.map fun (uri, document) => (trim uri, document))

def answer (retriever : Retriever) : Source := fun uri =>
  match retriever with
  | .absent => .error ("Retrieving '" ++ uri ++ "' requires a retriever")
  | .documents entries =>
    match entries.lookup uri with
    | some document => .ok document
    | none => .error ("Failed to find " ++ uri)

def all : Retriever → List (String × Json)
  | .absent => []
  | .documents entries => entries

end Retriever

/-- The settings of a resolver and the documents it has fetched, oldest first. -/
structure Resolver where
  retriever : Retriever := .absent
  siblings : Bool := false
  fetched : List (String × Json) := []

structure Inlining where
  fetched : List (String × Json)
  inlined : List (String × Json)
  asked : List String

structure Home where
  uri : String
  document : Json

/-- Steps of a run, which has no outcome if references nest deeper than it may go. -/
abbrev Inline := ExceptT ReferenceError (StateT Inlining Option)

namespace Resolver

def schemaMaps : List String :=
  ["properties", "patternProperties", "dependencies", "dependentSchemas"]

def dataKeywords : List String := ["const", "enum", "default", "examples"]

/-- Keywords that only serve as targets. -/
def storeKeywords : List String := ["definitions", "$defs"]

def reference? (members : Json.Members) : Option String := (members.lookup "$ref").bind Json.string?

/-- A target with the keywords beside its reference, if there are any. -/
def combine (target : Json) (others : Json.Members) : Json :=
  if others.isEmpty then target else .object [("allOf", .array [target, .object others])]

section Traversal

variable {m : Type → Type} [Monad m]

mutual

/-- A node with every reference followed by a given function. -/
def inlineNode (siblings : Bool) (follow : String → m Json) : Json → m Json
  | .object members =>
    match reference? members with
    | none => do return .object (← inlineMembers siblings follow members)
    | some reference => do
      let target ← follow reference
      if siblings then return combine target (← inlineMembers siblings follow members)
      else return target
  | .array items => do return .array (← inlineItems siblings follow items)
  | .null => return .null
  | .bool b => return .bool b
  | .number n => return .number n
  | .string s => return .string s
termination_by structural json => json

def inlineItems (siblings : Bool) (follow : String → m Json) : List Json → m (List Json)
  | [] => return []
  | item :: rest => do
    let item ← inlineNode siblings follow item
    let rest ← inlineItems siblings follow rest
    return item :: rest
termination_by structural items => items

/-- The keywords of a schema: stores and references are left out, data is kept as it is. -/
def inlineMembers (siblings : Bool) (follow : String → m Json) :
    Json.Members → m Json.Members
  | [] => return []
  | (name, value) :: rest => do
    if storeKeywords.contains name || (name == "$ref" && value.string?.isSome) then
      inlineMembers siblings follow rest
    else
      let value ← (if dataKeywords.contains name then pure value
        else if schemaMaps.contains name then inlineMap siblings follow value
        else inlineNode siblings follow value)
      let rest ← inlineMembers siblings follow rest
      return (name, value) :: rest
termination_by structural members => members

def inlineMap (siblings : Bool) (follow : String → m Json) : Json → m Json
  | .object schemas => do return .object (← inlineSchemas siblings follow schemas)
  | .array items => do return .array (← inlineItems siblings follow items)
  | .null => return .null
  | .bool b => return .bool b
  | .number n => return .number n
  | .string s => return .string s
termination_by structural json => json

def inlineSchemas (siblings : Bool) (follow : String → m Json) :
    Json.Members → m Json.Members
  | [] => return []
  | (name, schema) :: rest => do
    let schema ← inlineNode siblings follow schema
    let rest ← inlineSchemas siblings follow rest
    return (name, schema) :: rest
termination_by structural members => members

end

end Traversal

def splitReference (reference : String) : String × String :=
  let cs := reference.toList
  (String.ofList (cs.takeWhile (· != '#')), String.ofList ((cs.dropWhile (· != '#')).drop 1))

def key (home : Home) (reference : String) : String :=
  let (location, fragment) := splitReference reference
  (if location.isEmpty then home.uri else location) ++ "#" ++ fragment

def fetch (source : Source) (uri : String) : Inline Json := do
  match (← get).fetched.lookup uri with
  | some document => return document
  | none =>
    modify fun s => { s with asked := s.asked ++ [uri] }
    match source uri with
    | .ok document =>
      modify fun s => { s with fetched := s.fetched ++ [(uri, document)] }
      return document
    | .error cause => throw (.unretrievable uri cause)

def visit (source : Source) (home : Home) (location : String) : Inline Home :=
  if location.isEmpty then pure home
  else do
    let document ← fetch source location
    return ⟨location, document⟩

def locate (source : Source) (home : Home) (reference : String) : Inline (Home × Json) := do
  let (location, fragment) := splitReference reference
  let home ← visit source home location
  match Pointer.resolve home.document fragment with
  | .ok target => return (home, target)
  | .error e => throw e

/-- The inlined target of a reference met in a document, while other references are in progress.
There is none if more than `depth` references would be followed inside one another. -/
def follow (source : Source) (siblings : Bool) : Nat → List String → Home → String → Inline Json
  | 0, _, _, _ => fun _ => none
  | depth + 1, progress, home, reference => do
    let place := key home reference
    if progress.contains place then throw (.cyclic reference)
    else
      match (← get).inlined.lookup place with
      | some target => return target
      | none =>
        let (home, target) ← locate source home reference
        let inlined ←
          inlineNode siblings (follow source siblings depth (place :: progress) home) target
        modify fun s => { s with inlined := (place, inlined) :: s.inlined }
        return inlined

def inlineWithin (source : Source) (siblings : Bool) (fetched : List (String × Json))
    (schema : Json) (depth : Nat) : Option (Except ReferenceError Json × Inlining) :=
  (inlineNode siblings (follow source siblings depth [] ⟨"", schema⟩) schema).run.run
    ⟨fetched, [], []⟩

mutual

def mentions : Json → List String
  | .object members => (reference? members).toList ++ mentionsMembers members
  | .array items => mentionsItems items
  | _ => []
termination_by structural json => json

def mentionsItems : List Json → List String
  | [] => []
  | item :: rest => mentions item ++ mentionsItems rest
termination_by structural items => items

def mentionsMembers : Json.Members → List String
  | [] => []
  | (_, value) :: rest => mentions value ++ mentionsMembers rest
termination_by structural members => members

end

/-- More than the references that can be in progress at once: each stands somewhere in the schema
or in a document within reach. -/
def depthFor (r : Resolver) (schema : Json) : Nat :=
  let documents := schema :: (r.fetched ++ r.retriever.all).map Prod.snd
  (documents.flatMap mentions).length + 1

/-- A schema without references, or the reason why one has no target; then the resolver with what
it fetched, and the addresses it asked for. -/
def inline (r : Resolver) (schema : Json) : Except ReferenceError Json × Resolver × List String :=
  match inlineWithin r.retriever.answer r.siblings r.fetched schema (r.depthFor schema) with
  | some (result, final) => (result, { r with fetched := final.fetched }, final.asked)
  -- No run gets here: the depth is enough.
  | none => (.error (.cyclic "#"), r, [])

def describe (r : Resolver) : String :=
  let uris := r.fetched.map fun (uri, _) => Text.quoted uri
  "Resolver \x7b siblings: " ++ toString r.siblings ++ ", documents: [" ++ ", ".intercalate uris
    ++ "], .. \x7d"

end Resolver

end SchemaLogic
