import SchemaLogic.Proofs.Lexical
import SchemaLogic.Proofs.Meaning
import SchemaLogic.Proofs.Parts
import SchemaLogic.Schema.Compile

/-! # The meaning of a schema

Keywords act on readings as they do on scopes. There is no workspace and no reference here: the
meaning of a schema depends neither on what was compiled before it nor on where its value is. -/
namespace SchemaLogic

/-- Adds what a schema means to a reading. -/
abbrev Enrich := Json → Reading → Except CompileError Reading

abbrev Interpret := Json → Except CompileError (Meaning (Option Json))

def Enrich.interpret (enrich : Enrich) (o : Options) : Interpret
  | .bool true => return .look Instance.isPresent
  | .bool false => return .look fun i => !i.isPresent
  | .object members => do
    let reading ← enrich (.object members) {}
    return reading.finalize o
  | schema => throw (.invalidSchema schema)

abbrev Demands := Except CompileError (List (Meaning (Option Json)))

def patternOf [Pattern.Engines] (unicode : Bool) (source : String) : Except CompileError Pattern :=
  match Pattern.compile? unicode source with
  | some p => .ok p
  | none => .error (.invalidPattern source)

theorem expectArray_ok {keyword : String} {value : Json} {items : List Json}
    (h : expectArray keyword value = .ok items) : value = .array items := by
  cases value <;> cases h
  rfl

namespace Meaning

def matching (p : Pattern) : Meaning (Option Json) := look fun i => i.text?.any p.isMatch

def equalTo (literal : Json) : Meaning (Option Json) := .test fun s => s.any literal.equal

@[simp] theorem holds_equalTo (literal : Json) (s : Option Json) :
    (equalTo literal).holds s = s.any literal.equal := rfl

end Meaning

namespace Node

variable [Pattern.Engines]

def enumDemands (n : Node) : Demands := do
  let items ← expectArray "enum" n.value
  if n.options.fastAssertions then return [.look (·.inTable items)]
  else return [.disj (items.map Meaning.equalTo)]

def leastDemands (n : Node) (keyword : String) (measure : Measure) : Demands := do
  let limit ← expectLimit keyword n.value
  return if 0 < limit then [.size measure .ge limit] else []

def mostDemands (n : Node) (keyword : String) (measure : Measure) : Demands := do
  let limit ← expectLimit keyword n.value
  return [.size measure .le limit]

def patternDemands (n : Node) : Demands :=
  match n.value with
  | .string source => do
    let p ← patternOf n.options.unicodeAwareRegex source
    return [.matching p]
  | value => throw (.invalidKeyword "pattern" value .string)

def boundDemands (n : Node) (keyword : String) (op : CmpOp) : Demands := do
  let limit ← expectNumber keyword n.value
  return [.look fun i => i.number?.any fun x => (x.toNumeric.compare? limit.toNumeric).any op.holds]

def divisorDemands (n : Node) : Demands := do
  let number ← expectNumber "multipleOf" n.value
  if number.toNumeric.isPositive then
    let exact := if n.options.accurateMultipleOf then Decimal.parse? number.text else none
    return [.look (·.isMultipleOf ⟨number.toNumeric, exact⟩)]
  else throw (.invalidKeyword "multipleOf" n.value .positiveNumber)

def uniqueDemands (n : Node) : Demands :=
  match n.value with
  | .bool false => return []
  | .bool true =>
    return [.look fun i => i.items?.any
      (Json.isUnique (if n.options.fastAssertions then Json.same else Json.equal))]
  | value => throw (.invalidKeyword "uniqueItems" value .boolean)

def tupleDemands (interpret : Interpret) (start : Nat) (schemas : List Json) : Demands :=
  (schemas.zipIdx start).mapM fun (schema, i) => do
    let m ← interpret schema
    return .disj [.size .items .le i, m.index i]

def restDemands (interpret : Interpret) (schema : Json) (start : Nat) : Demands :=
  if 0 < start && schema = .bool false then return [.size .items .le start]
  else do
    let m ← interpret schema
    if start = 0 then return [.everyItem m]
    else if m.const? = some true then return []
    else
      return [.look fun i => i.items?.any fun items =>
        (items.drop start).all fun x => m.holds (some x)]

def itemsDemands (n : Node) (interpret : Interpret) : Demands :=
  match n.value with
  | .array schemas => tupleDemands interpret 0 schemas
  | schema => restDemands interpret schema n.prefixLength

def positionDemands (n : Node) (interpret : Interpret) : Demands := do
  let schemas ← expectArray "prefixItems" n.value
  tupleDemands interpret 0 schemas

def additionalItemsDemands (n : Node) (interpret : Interpret) : Demands :=
  match n.sibling? "items" with
  | some (.array schemas) => restDemands interpret n.value schemas.length
  | _ => return []

def containsDemands (n : Node) (interpret : Interpret) : Demands := do
  let least ← n.containsBound "minContains"
  let most ← n.containsBound "maxContains"
  let m ← interpret n.value
  if least.isNone && most.isNone then return [.someItem m]
  else if least = some 0 && most.isNone then return []
  else
    return [.look fun i => i.items?.any fun items =>
      Routine.within (least.getD 1) most (items.countP fun x => m.holds (some x))]

def containsBoundDemands (n : Node) (keyword : String) (op : CmpOp) : Demands := do
  let limit ← expectLimit keyword n.value
  return if (n.sibling? "contains").isSome then [] else [.size .items op limit]

def owns (n : Node) (name : String) : Meaning (Option Json) :=
  if n.options.strictPropertyCheck then
    .look fun i => i.entries?.any fun entries => (entries.get? name).isSome
  else .property name (.look Instance.isPresent)

def requiredDemands (n : Node) : Demands := do
  let names ← expectStrings "required" n.value
  return names.map n.owns

def propertyDemands (n : Node) (interpret : Interpret) : Demands := do
  let properties ← expectObject "properties" n.value
  properties.mapM fun (name, schema) => do
    let m ← interpret schema
    return if n.requiredNames.contains name then m.property name
      else .disj [.negate (n.owns name), m.property name]

def keyMatching (n : Node) (source : String) :
    Except CompileError (Meaning (Option Json × Option Json)) := do
  let p ← patternOf n.options.unicodeAwareRegex source
  return (Meaning.matching p).along Prod.fst

def keyClauses (n : Node) (interpret : Interpret) (patterns : Json.Members) :
    Except CompileError (List (Meaning (Option Json × Option Json))) :=
  patterns.mapM fun (source, schema) => do
    let key ← n.keyMatching source
    let m ← interpret schema
    return .disj [.negate key, m.along Prod.snd]

def patternPropertyDemands (n : Node) (interpret : Interpret) : Demands := do
  let patterns ← expectObject "patternProperties" n.value
  let clauses ← n.keyClauses interpret patterns
  return [.everyKey (.conj clauses)]

def spareMeaning (interpret : Interpret) : Interpret
  | .bool false => return .const false
  | schema => interpret schema

def additionalPropertyDemands (n : Node) (interpret : Interpret) : Demands := do
  let named := (n.siblingMembers "properties").map fun (name, _) =>
    (Meaning.look (·.equalsScalar (.string name))).along Prod.fst
  let matched ← ((n.siblingMembers "patternProperties").map Prod.fst).mapM n.keyMatching
  let m ← spareMeaning interpret n.value
  return [.everyKey (.disj (named ++ matched ++ [m.along Prod.snd]))]

def propertyNameDemands (n : Node) (interpret : Interpret) : Demands := do
  let m ← interpret n.value
  return [.everyKey (m.along Prod.fst)]

def dependencyMeaning (n : Node) (interpret : Interpret) (keyword : String) (value : Json) :
    Except CompileError (Meaning (Option Json)) :=
  match value with
  | .array _ => do
    let names ← expectStrings keyword value
    return .conj (names.map n.owns)
  | schema => interpret schema

def dependencyDemands (n : Node) (interpret : Interpret) (keyword : String)
    (check : Json → Except CompileError Unit) : Demands := do
  let triggers ← expectObject keyword n.value
  triggers.mapM fun (trigger, value) => do
    check value
    let m ← n.dependencyMeaning interpret keyword value
    return .disj [.negate (n.owns trigger), m]

def notDemands (n : Node) (interpret : Interpret) : Demands := do
  let m ← interpret n.value
  return [m.negate]

def customDemands (n : Node) (c : CustomKeyword) : Demands :=
  match c.setUp n.members n.value with
  | .ok accepts => return [.look (·.passes ⟨c.name, accepts⟩)]
  | .error cause => throw (.custom c.name cause)

def branchMeanings (n : Node) (enrich : Enrich) (s : Reading) (schemas : List Json) : Demands :=
  schemas.mapM fun schema => do
    let branch ← enrich schema s.fork
    return branch.finalize n.options

end Node

namespace Keyword

variable [Pattern.Engines]

def bucket : Keyword → Bucket
  | .minLength | .maxLength | .pattern => .strings
  | .multipleOf | .minimum | .maximum | .exclusiveMinimum | .exclusiveMaximum => .numbers
  | .minItems | .maxItems | .uniqueItems | .items | .prefixItems | .additionalItems | .contains
  | .minContains | .maxContains => .arrays
  | .propertyNames | .minProperties | .maxProperties | .required | .properties
  | .patternProperties | .additionalProperties | .dependencies | .dependentRequired
  | .dependentSchemas => .objects
  | .type | .enum | .const | .anyOf | .oneOf | .allOf | .not | .custom _ => .always

/-- What a keyword asks for; the keywords that look at the declared types, or add to them, do not
ask for anything here. -/
def demands (k : Keyword) (interpret : Interpret) (n : Node) : Demands :=
  match k with
  | .enum => n.enumDemands
  | .const => return [.equalTo n.value]
  | .minLength => n.leastDemands "minLength" n.stringMeasure
  | .maxLength => n.mostDemands "maxLength" n.stringMeasure
  | .pattern => n.patternDemands
  | .multipleOf => n.divisorDemands
  | .minimum => n.boundDemands "minimum" .ge
  | .maximum => n.boundDemands "maximum" .le
  | .exclusiveMinimum => n.boundDemands "exclusiveMinimum" .gt
  | .exclusiveMaximum => n.boundDemands "exclusiveMaximum" .lt
  | .minItems => n.leastDemands "minItems" .items
  | .maxItems => n.mostDemands "maxItems" .items
  | .uniqueItems => n.uniqueDemands
  | .items => n.itemsDemands interpret
  | .prefixItems => n.positionDemands interpret
  | .additionalItems => n.additionalItemsDemands interpret
  | .contains => n.containsDemands interpret
  | .minContains => n.containsBoundDemands "minContains" .ge
  | .maxContains => n.containsBoundDemands "maxContains" .le
  | .propertyNames => n.propertyNameDemands interpret
  | .minProperties => n.leastDemands "minProperties" .keys
  | .maxProperties => n.mostDemands "maxProperties" .keys
  | .required => n.requiredDemands
  | .properties => n.propertyDemands interpret
  | .patternProperties => n.patternPropertyDemands interpret
  | .additionalProperties => n.additionalPropertyDemands interpret
  | .dependencies => n.dependencyDemands interpret "dependencies" fun _ => .ok ()
  | .dependentRequired => n.dependencyDemands interpret "dependentRequired" Node.checkNames
  | .dependentSchemas => n.dependencyDemands interpret "dependentSchemas" Node.checkSchema
  | .not => n.notDemands interpret
  | .custom c => n.customDemands c
  | .type | .anyOf | .oneOf | .allOf => return []

def enrich (k : Keyword) (enrich : Enrich) (n : Node) (s : Reading) : Except CompileError Reading :=
  match k with
  | .type => do
    let types ← Node.declaredTypes n.value
    return s.declare types
  | .anyOf => do
    let schemas ← expectNonEmptyArray "anyOf" n.value
    let ms ← n.branchMeanings enrich s schemas
    return s.push .always (.disj ms)
  | .oneOf => do
    let schemas ← expectNonEmptyArray "oneOf" n.value
    let ms ← n.branchMeanings enrich s schemas
    return s.push .always (.one ms)
  | .allOf => do
    let schemas ← expectNonEmptyArray "allOf" n.value
    schemas.foldlM (fun s schema => enrich schema s) s
  | k => do
    let ms ← k.demands (enrich.interpret n.options) n
    return s.pushAll k.bucket ms

end Keyword

def enrichMember [Pattern.Engines] (enrich : Enrich) (o : Options) (table : Table)
    (members : Json.Members) (pass : Pass) (s : Reading) (member : String × Json) :
    Except CompileError Reading :=
  match pass.get? member.1 with
  | some k => k.enrich enrich ⟨o, table, members, member.2, .input⟩ s
  | none => pure s

def enrichPasses [Pattern.Engines] (enrich : Enrich) (o : Options) (table : Table)
    (members : Json.Members) (passes : List Pass) (s : Reading) : Except CompileError Reading :=
  passes.foldlM (fun s pass => members.foldlM (enrichMember enrich o table members pass) s) s

/-- Enriching a reading by a schema that is nested less deep than the fuel. -/
def enrichAt [Pattern.Engines] (o : Options) (table : Table) : Nat → Enrich
  | 0, schema, _ => throw (.invalidSchema schema)
  | fuel + 1, schema, s =>
    match schema with
    | .object members => enrichPasses (enrichAt o table fuel) o table members table s
    | .bool true => return s
    | .bool false => return s.push .always (.look fun i => !i.isPresent)
    | _ => throw (.invalidSchema schema)

def meaning [Pattern.Engines] (o : Options) (table : Table) (schema : Json) :
    Except CompileError (Meaning (Option Json)) :=
  (enrichAt o table (schema.depth + 1)).interpret o schema

namespace Json

theorem depth_item {items : List Json} {item : Json} (h : item ∈ items) :
    item.depth < (Json.array items).depth := by
  suffices item.depth ≤ depthItems items by rw [depth]; omega
  induction items with
  | nil => cases h
  | cons other rest ih =>
    rw [depthItems]
    rcases List.mem_cons.mp h with rfl | h
    · exact Nat.le_max_left _ _
    · exact Nat.le_trans (ih h) (Nat.le_max_right _ _)

theorem depth_member {members : Members} {member : String × Json} (h : member ∈ members) :
    member.2.depth < (Json.object members).depth := by
  suffices member.2.depth ≤ depthMembers members by rw [depth]; omega
  induction members with
  | nil => cases h
  | cons other rest ih =>
    rw [depthMembers]
    rcases List.mem_cons.mp h with rfl | h
    · exact Nat.le_max_left _ _
    · exact Nat.le_trans (ih h) (Nat.le_max_right _ _)

end Json

/-! ## The schemas inside a schema -/

def Keyword.parts (k : Keyword) (value : Json) : List Json :=
  match k with
  | .items =>
    match value with
    | .array schemas => schemas
    | schema => [schema]
  | .prefixItems | .anyOf | .oneOf | .allOf => value.items?.getD []
  | .additionalItems | .contains | .propertyNames | .additionalProperties | .not => [value]
  | .properties | .patternProperties | .dependencies | .dependentSchemas =>
    (value.members?.getD []).map Prod.snd
  | _ => []

theorem Keyword.parts_inside {k : Keyword} {value part : Json} (h : part ∈ k.parts value) :
    Json.Inside part value := by
  have item (hmem : part ∈ value.items?.getD []) : Json.Inside part value := by
    cases value with
    | array items => exact .item hmem .self
    | _ => cases hmem
  have member (hmem : part ∈ (value.members?.getD []).map Prod.snd) : Json.Inside part value := by
    cases value with
    | object members =>
      obtain ⟨⟨name, value⟩, hm, rfl⟩ := List.mem_map.mp hmem
      exact .member hm .self
    | _ => cases hmem
  have whole (hmem : part ∈ [value]) : Json.Inside part value := by
    rw [List.mem_singleton.mp hmem]
    exact .self
  cases k with
  | items =>
    cases value with
    | array schemas => exact item h
    | _ => exact whole h
  | prefixItems | anyOf | oneOf | allOf => exact item h
  | additionalItems | contains | propertyNames | additionalProperties | not => exact whole h
  | properties | patternProperties | dependencies | dependentSchemas => exact member h
  | _ => cases h

theorem Json.Inside.depth_le {part json : Json} (h : Json.Inside part json) :
    part.depth ≤ json.depth := by
  induction h with
  | self => exact Nat.le_refl _
  | item hi _ ih => exact Nat.le_trans ih (Nat.le_of_lt (Json.depth_item hi))
  | member hm _ ih => exact Nat.le_trans ih (Nat.le_of_lt (Json.depth_member hm))

/-- The schemas inside a schema, through the keywords of a table. -/
inductive Subschema (table : Table) : Json → Json → Prop where
  | self {schema} : Subschema table schema schema
  | inside {members name value pass k part inner} : (name, value) ∈ members → pass ∈ table →
      Pass.get? pass name = some k → part ∈ k.parts value → Subschema table part inner →
      Subschema table (.object members) inner

/-! ## Fuel -/

theorem mapM_congr_left {α β ε : Type} {f g : α → Except ε β} {l : List α}
    (h : ∀ a ∈ l, f a = g a) : l.mapM f = l.mapM g := by
  induction l with
  | nil => rfl
  | cons a l ih =>
    rw [List.mapM_cons, List.mapM_cons, h a (by simp), ih fun b hb => h b (.tail _ hb)]

theorem foldlM_congr_left {α β ε : Type} {f g : β → α → Except ε β} {l : List α}
    (h : ∀ a ∈ l, ∀ b, f b a = g b a) (b : β) : l.foldlM f b = l.foldlM g b := by
  induction l generalizing b with
  | nil => rfl
  | cons a l ih =>
    rw [List.foldlM_cons, List.foldlM_cons, h a (by simp)]
    exact congrArg _ (funext fun b => ih (fun c hc => h c (.tail _ hc)) b)

section Demands

variable {f g : Interpret} {n : Node}

theorem tupleDemands_congr {schemas : List Json} (h : ∀ sub ∈ schemas, f sub = g sub)
    (start : Nat) : Node.tupleDemands f start schemas = Node.tupleDemands g start schemas :=
  mapM_congr_left fun p hp => by simp only [h p.1 (List.fst_mem_of_mem_zipIdx hp)]

theorem restDemands_congr {schema : Json} (h : f schema = g schema) (start : Nat) :
    Node.restDemands f schema start = Node.restDemands g schema start := by
  simp only [Node.restDemands, h]

theorem dependencyDemands_congr {check : Json → Except CompileError Unit}
    (h : ∀ entry ∈ n.value.members?.getD [], check entry.2 = .ok () →
      entry.2.isArray = true ∨ f entry.2 = g entry.2) (keyword : String) :
    n.dependencyDemands f keyword check = n.dependencyDemands g keyword check := by
  simp only [Node.dependencyDemands, expectObject]
  split
  · next members hv =>
    rw [hv] at h
    refine mapM_congr_left fun entry he => ?_
    cases hc : check entry.2 with
    | error e => rfl
    | ok _ =>
      have asked : n.dependencyMeaning f keyword entry.2 =
          n.dependencyMeaning g keyword entry.2 := by
        rcases h entry he hc with harray | hsame
        · cases hval : entry.2 with
          | array _ => rfl
          | _ => simp [hval, Json.isArray] at harray
        · simp only [Node.dependencyMeaning]
          split
          · rfl
          · exact hsame
      simp only [asked]
  · rfl

/-- A keyword looks only at the schemas that it finds in its value. -/
theorem demands_congr [Pattern.Engines] (k : Keyword)
    (h : ∀ part ∈ k.parts n.value, f part = g part) : k.demands f n = k.demands g n := by
  have entries (hk : k.parts n.value = (n.value.members?.getD []).map Prod.snd) :
      ∀ entry ∈ n.value.members?.getD [], f entry.2 = g entry.2 :=
    fun entry he => h entry.2 (hk ▸ List.mem_map_of_mem he)
  cases k with
  | items =>
    simp only [Keyword.demands, Node.itemsDemands]
    cases hv : n.value with
    | array schemas =>
      rw [hv] at h
      exact tupleDemands_congr h 0
    | _ =>
      rw [hv] at h
      exact restDemands_congr (h _ (.head _)) _
  | prefixItems =>
    simp only [Keyword.demands, Node.positionDemands, expectArray]
    split
    · next hv =>
      rw [hv] at h
      exact tupleDemands_congr h 0
    · rfl
  | additionalItems =>
    simp only [Keyword.demands, Node.additionalItemsDemands]
    split
    · exact restDemands_congr (h _ (.head _)) _
    · rfl
  | contains => simp only [Keyword.demands, Node.containsDemands, h _ (.head _)]
  | propertyNames => simp only [Keyword.demands, Node.propertyNameDemands, h _ (.head _)]
  | properties =>
    simp only [Keyword.demands, Node.propertyDemands, expectObject]
    split
    · next hv =>
      have inner := entries rfl
      rw [hv] at inner
      exact mapM_congr_left fun entry he => by simp only [inner entry he]
    · rfl
  | patternProperties =>
    simp only [Keyword.demands, Node.patternPropertyDemands, expectObject]
    split
    · next patterns hv =>
      have inner := entries rfl
      rw [hv] at inner
      have clauses : n.keyClauses f patterns = n.keyClauses g patterns :=
        mapM_congr_left fun entry he => by simp only [inner entry he]
      exact congrArg (· >>= fun clauses => pure [(Meaning.conj clauses).everyKey]) clauses
    · rfl
  | additionalProperties =>
    have spare : Node.spareMeaning f n.value = Node.spareMeaning g n.value := by
      rw [Node.spareMeaning.eq_def, Node.spareMeaning.eq_def]
      split
      · rfl
      · exact h _ (.head _)
    simp only [Keyword.demands, Node.additionalPropertyDemands, spare]
  | dependencies | dependentSchemas =>
    simp only [Keyword.demands]
    exact dependencyDemands_congr (fun entry he _ => .inr (entries rfl entry he)) _
  | dependentRequired =>
    simp only [Keyword.demands]
    refine dependencyDemands_congr (fun entry _ hc => .inl ?_) _
    rw [Node.checkNames] at hc
    split at hc
    · next harray => exact harray
    · cases hc
  | not => simp only [Keyword.demands, Node.notDemands, h _ (.head _)]
  | _ => rfl

end Demands

section Fuel

variable {f g : Enrich} {n : Node}

theorem interpret_congr {schema : Json} (h : ∀ s, f schema s = g schema s) (o : Options) :
    f.interpret o schema = g.interpret o schema := by
  cases schema with
  | object members => simp only [Enrich.interpret, h]
  | bool b => cases b <;> rfl
  | _ => rfl

variable [Pattern.Engines]

theorem enrich_congr (k : Keyword) (h : ∀ part ∈ k.parts n.value, ∀ s, f part s = g part s)
    (s : Reading) : k.enrich f n s = k.enrich g n s := by
  have items {keyword : String} {schemas : List Json}
      (h : ∀ part ∈ n.value.items?.getD [], ∀ s, f part s = g part s)
      (hv : expectNonEmptyArray keyword n.value = .ok schemas) :
      ∀ part ∈ schemas, ∀ s, f part s = g part s := by
    cases hn : n.value with
    | array all =>
      rw [hn] at hv h
      cases all <;> cases hv
      exact h
    | _ => rw [hn] at hv; cases hv
  have branches {schemas : List Json} (h : ∀ part ∈ schemas, ∀ s, f part s = g part s) :
      n.branchMeanings f s schemas = n.branchMeanings g s schemas :=
    mapM_congr_left fun part hpart => by simp only [h part hpart]
  have demands : k.demands (f.interpret n.options) n = k.demands (g.interpret n.options) n :=
    demands_congr k fun part hpart => interpret_congr (h part hpart) n.options
  cases k with
  | type => rfl
  | anyOf | oneOf =>
    simp only [Keyword.enrich]
    cases hv : expectNonEmptyArray _ n.value with
    | error e => rfl
    | ok schemas =>
      have same := branches (items h hv)
      change (n.branchMeanings f s schemas >>= _) = (n.branchMeanings g s schemas >>= _)
      rw [same]
  | allOf =>
    simp only [Keyword.enrich]
    cases hv : expectNonEmptyArray "allOf" n.value with
    | error e => rfl
    | ok schemas => exact foldlM_congr_left (items h hv) s
  | _ => simp only [Keyword.enrich, demands]

/-- Any fuel above the depth of a schema gives the same reading. -/
theorem enrichAt_fuel (o : Options) (table : Table) {fuel other : Nat} {schema : Json}
    (h : schema.depth < fuel) (k : schema.depth < other) (s : Reading) :
    enrichAt o table fuel schema s = enrichAt o table other schema s := by
  induction fuel generalizing other schema s with
  | zero => omega
  | succ fuel ih =>
    obtain _ | other := other
    · omega
    cases schema with
    | object members =>
      refine foldlM_congr_left (fun pass _ s => foldlM_congr_left (fun member hm s => ?_) s) s
      have hd := Json.depth_member hm
      simp only [enrichMember]
      split
      · refine enrich_congr _ (fun part hpart s => ?_) s
        have inside : part.depth ≤ member.2.depth := (Keyword.parts_inside hpart).depth_le
        exact ih (by omega) (by omega) s
      · rfl
    | bool b => cases b <;> rfl
    | _ => rfl

theorem interpret_fuel (o : Options) (table : Table) {fuel : Nat} {schema : Json}
    (h : schema.depth < fuel) :
    (enrichAt o table fuel).interpret o schema = meaning o table schema :=
  interpret_congr (enrichAt_fuel o table h (Nat.lt_succ_self _)) o

end Fuel

end SchemaLogic
