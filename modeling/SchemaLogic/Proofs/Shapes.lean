import SchemaLogic.Proofs.PairedSchemas

/-! # Shapes of keywords

For each keyword: what its value has to look like, which schemas it finds there, and what it reads
beside itself. What the keyword asks for can be told exactly if the shape is right and each of those
schemas has a meaning (`isOk_demands`). -/
namespace SchemaLogic

namespace Json

def isBool : Json → Bool
  | .bool _ => true
  | _ => false

def isStrings (json : Json) : Bool := json.items?.any (·.all (·.string?.isSome))

def isTypeName (json : Json) : Bool :=
  json.string?.any fun name => (JsonType.ofName? name).isSome

end Json

def Options.reads [Pattern.Engines] (o : Options) (source : String) : Bool :=
  (Pattern.compile? o.unicodeAwareRegex source).isSome

namespace Keyword

/-- The value of a keyword is of the shape that the keyword asks for. Where it takes a schema, any
value will do here. -/
def fits [Pattern.Engines] (k : Keyword) (o : Options) (value : Json) : Bool :=
  match k with
  | .type =>
    match value with
    | .array names => names.all Json.isTypeName
    | name => name.isTypeName
  | .enum | .prefixItems => value.isArray
  | .minLength | .maxLength | .minItems | .maxItems | .minContains | .maxContains
  | .minProperties | .maxProperties => (limit? value).isSome
  | .pattern => value.string?.any o.reads
  | .multipleOf => value.number?.any (·.toNumeric.isPositive)
  | .minimum | .maximum | .exclusiveMinimum | .exclusiveMaximum => value.number?.isSome
  | .uniqueItems => value.isBool
  | .required => value.isStrings
  | .properties => value.members?.isSome
  | .patternProperties => value.members?.any fun patterns => patterns.all (o.reads ·.1)
  | .dependencies => value.members?.any fun triggers =>
    triggers.all fun trigger => !trigger.2.isArray || trigger.2.isStrings
  | .dependentRequired => value.members?.any fun triggers => triggers.all (·.2.isStrings)
  | .dependentSchemas => value.members?.any fun triggers => triggers.all (!·.2.isArray)
  | .anyOf | .oneOf | .allOf => value.items?.any (!·.isEmpty)
  | .const | .items | .additionalItems | .contains | .propertyNames | .additionalProperties
  | .not | .custom _ => true

/-- The schemas that a keyword finds in its value, beside the other members of its schema. The
value of `additionalItems` is one only next to positional `items`, and a dependency only if it does
not list names. -/
def subschemas (k : Keyword) (members : Json.Members) (value : Json) : List Json :=
  match k with
  | .additionalItems =>
    match members.lookup "items" with
    | some (.array _) => [value]
    | _ => []
  | .dependencies => (k.parts value).filter (!·.isArray)
  | k => k.parts value

/-- What a keyword reads beside itself can be read: the patterns that `additionalProperties` leaves
out, the bounds of `contains`, and all that a custom keyword asks for. -/
def legible [Pattern.Engines] (k : Keyword) (n : Node) : Bool :=
  match k with
  | .contains => (n.containsBound "minContains").isOk && (n.containsBound "maxContains").isOk
  | .additionalProperties => (n.siblingMembers "patternProperties").all (n.options.reads ·.1)
  | .custom c => (c.setUp n.members n.value).isOk
  | _ => true

end Keyword

/-! ## Results -/

section Results

variable {ε α β : Type}

theorem isOk_iff {x : Except ε α} : x.isOk = true ↔ ∃ a, x = .ok a := by
  cases x <;> simp [Except.isOk, Except.toBool]

theorem isOk_bind {x : Except ε α} {f : α → Except ε β} {b : Bool}
    (h : ∀ a, x = .ok a → (f a).isOk = b) : (x >>= f).isOk = (x.isOk && b) := by
  cases x with
  | error e => rfl
  | ok a => exact h a rfl

theorem isOk_bind_pure (x : Except ε α) (f : α → β) :
    (x >>= fun a => pure (f a)).isOk = x.isOk := by
  cases x <;> rfl

theorem isOk_mapM (f : α → Except ε β) (l : List α) :
    (l.mapM f).isOk = l.all fun a => (f a).isOk := by
  induction l with
  | nil => rfl
  | cons a l ih =>
    rw [List.mapM_cons, List.all_cons, ← ih]
    refine isOk_bind fun b _ => ?_
    exact isOk_bind_pure _ _

theorem isSome_mapM (f : α → Option β) (l : List α) :
    (l.mapM f).isSome = l.all fun a => (f a).isSome := by
  induction l with
  | nil => rfl
  | cons a l ih =>
    rw [List.mapM_cons, List.all_cons, ← ih]
    cases f a with
    | none => rfl
    | some b => cases l.mapM f <;> rfl

end Results

/-! ## One keyword -/

section Keywords

variable {interpret : Interpret} {n : Node}

theorem isOk_expectArray (keyword : String) (value : Json) :
    (expectArray keyword value).isOk = value.isArray := by cases value <;> rfl

theorem isOk_expectNumber (keyword : String) (value : Json) :
    (expectNumber keyword value).isOk = value.number?.isSome := by cases value <;> rfl

theorem isOk_expectNonEmptyArray (keyword : String) (value : Json) :
    (expectNonEmptyArray keyword value).isOk = value.items?.any (!·.isEmpty) := by
  cases value with
  | array items => cases items <;> rfl
  | _ => rfl

theorem isOk_expectLimit (keyword : String) (value : Json) :
    (expectLimit keyword value).isOk = (limit? value).isSome := by
  rw [expectLimit]
  cases limit? value <;> rfl

theorem isOk_expectStrings (keyword : String) (value : Json) :
    (expectStrings keyword value).isOk = value.isStrings := by
  rw [expectStrings]
  refine (isOk_bind (b := value.isStrings) fun items h => ?_).trans ?_
  · have all : value.isStrings = (items.mapM Json.string?).isSome := by
      rw [isSome_mapM, expectArray_ok h]
      rfl
    rw [all]
    cases items.mapM Json.string? <;> rfl
  · rw [isOk_expectArray]
    cases value <;> rfl

theorem isOk_patternOf [Pattern.Engines] (o : Options) (source : String) :
    (patternOf o.unicodeAwareRegex source).isOk = o.reads source := by
  rw [patternOf, Options.reads]
  cases Pattern.compile? o.unicodeAwareRegex source <;> rfl

theorem isOk_declaredTypes [Pattern.Engines] (o : Options) (value : Json) :
    (Node.declaredTypes value).isOk = Keyword.type.fits o value := by
  cases value with
  | string name =>
    simp only [Node.declaredTypes, Keyword.fits, Json.isTypeName, Json.string?, Option.any_some,
      Option.bind_some]
    cases JsonType.ofName? name <;> rfl
  | array names =>
    have known : names.all Json.isTypeName =
        (names.mapM fun name : Json => name.string?.bind JsonType.ofName?).isSome := by
      rw [isSome_mapM]
      refine all_congr_mem fun name _ => ?_
      cases name <;> rfl
    simp only [Keyword.fits, known, Node.declaredTypes]
    cases names.mapM fun name : Json => name.string?.bind JsonType.ofName? <;> rfl
  | _ => rfl

theorem isOk_tuple (schemas : List Json) (start : Nat) :
    (Node.tupleDemands interpret start schemas).isOk =
      schemas.all fun schema => (interpret schema).isOk := by
  rw [Node.tupleDemands, isOk_mapM]
  induction schemas generalizing start with
  | nil => rfl
  | cons schema schemas ih =>
    rw [List.zipIdx_cons, List.all_cons, List.all_cons, ih]
    exact congrArg (· && _) (isOk_bind_pure _ _)

theorem isOk_rest (h : (interpret (.bool false)).isOk = true) (schema : Json) (start : Nat) :
    (Node.restDemands interpret schema start).isOk = (interpret schema).isOk := by
  rw [Node.restDemands]
  split
  · next hf =>
    obtain ⟨-, rfl⟩ : 0 < start ∧ schema = .bool false := by simpa using hf
    exact h.symm
  · refine (isOk_bind (b := true) fun m _ => ?_).trans (Bool.and_true _)
    split
    · rfl
    · split <;> rfl

theorem isOk_items (h : (interpret (.bool false)).isOk = true) (n : Node) :
    (n.itemsDemands interpret).isOk =
      (Keyword.items.parts n.value).all fun part => (interpret part).isOk := by
  obtain ⟨options, table, members, value, ref⟩ := n
  cases value with
  | array schemas => exact isOk_tuple schemas 0
  | _ => exact (isOk_rest h _ _).trans (Bool.and_true _).symm

theorem isOk_additionalItems (h : (interpret (.bool false)).isOk = true) (n : Node) :
    (n.additionalItemsDemands interpret).isOk =
      (Keyword.additionalItems.subschemas n.members n.value).all fun part =>
        (interpret part).isOk := by
  rw [Node.additionalItemsDemands, Node.sibling?, Keyword.subschemas]
  cases n.members.lookup "items" with
  | none => rfl
  | some value =>
    cases value with
    | array schemas => exact (isOk_rest h _ _).trans (Bool.and_true _).symm
    | _ => rfl

theorem isOk_contains [Pattern.Engines] (n : Node) : (n.containsDemands interpret).isOk =
    (Keyword.contains.legible n && (interpret n.value).isOk) := by
  rw [Node.containsDemands, Keyword.legible, Bool.and_assoc]
  refine isOk_bind fun least _ => isOk_bind fun most _ => ?_
  refine (isOk_bind (b := true) fun m _ => ?_).trans (Bool.and_true _)
  split
  · rfl
  · split <;> rfl

theorem isOk_members {α : Type} (keyword : String) (value : Json)
    (f : Json.Members → Except CompileError α) :
    (expectObject keyword value >>= f).isOk =
      value.members?.any fun members => (f members).isOk := by cases value <;> rfl

theorem isOk_properties (n : Node) : (n.propertyDemands interpret).isOk =
    (n.value.members?.isSome &&
      (Keyword.properties.parts n.value).all fun part => (interpret part).isOk) := by
  rw [Node.propertyDemands, isOk_members]
  simp only [isOk_mapM, isOk_bind_pure, Keyword.parts, List.all_map]
  cases n.value <;> rfl

theorem isOk_keyMatching [Pattern.Engines] (n : Node) (source : String) :
    (n.keyMatching source).isOk = n.options.reads source :=
  (isOk_bind_pure _ _).trans (isOk_patternOf n.options source)

theorem isOk_keyClauses [Pattern.Engines] (n : Node) (patterns : Json.Members) :
    (n.keyClauses interpret patterns).isOk = patterns.all fun member =>
      n.options.reads member.1 && (interpret member.2).isOk := by
  rw [Node.keyClauses, isOk_mapM]
  refine all_congr_mem fun member _ => ?_
  rw [← isOk_keyMatching]
  exact isOk_bind fun key _ => isOk_bind_pure _ _

theorem any_all_and (value : Json) (p : String × Json → Bool) (q : Json → Bool) :
    (value.members?.any fun members => members.all fun member => p member && q member.2) =
      ((value.members?.any fun members => members.all p) &&
        ((value.members?.getD []).map Prod.snd).all q) := by
  cases value with
  | object members =>
    rw [Bool.eq_iff_iff]
    simp [Json.members?, forall_and]
  | _ => rfl

theorem isOk_patternProperties [Pattern.Engines] (n : Node) :
    (n.patternPropertyDemands interpret).isOk = (Keyword.patternProperties.fits n.options n.value &&
      (Keyword.patternProperties.parts n.value).all fun part => (interpret part).isOk) := by
  rw [Node.patternPropertyDemands, isOk_members]
  simp only [isOk_bind_pure, isOk_keyClauses, any_all_and _ _ fun part => (interpret part).isOk]
  rfl

theorem isOk_spareMeaning (h : (interpret (.bool false)).isOk = true) (schema : Json) :
    (Node.spareMeaning interpret schema).isOk = (interpret schema).isOk := by
  rw [Node.spareMeaning.eq_def]
  split
  · exact h.symm
  · rfl

theorem isOk_additionalProperties [Pattern.Engines] (h : (interpret (.bool false)).isOk = true)
    (n : Node) : (n.additionalPropertyDemands interpret).isOk =
      (Keyword.additionalProperties.legible n && (interpret n.value).isOk) := by
  have tests : (((n.siblingMembers "patternProperties").map Prod.fst).mapM n.keyMatching).isOk =
      Keyword.additionalProperties.legible n := by
    rw [isOk_mapM, List.all_map]
    exact all_congr_mem fun member _ => isOk_keyMatching n member.1
  rw [Node.additionalPropertyDemands, ← tests]
  refine isOk_bind fun matched _ => ?_
  rw [isOk_bind_pure, isOk_spareMeaning h]

theorem isOk_dependencies (n : Node) (keyword : String)
    (check : Json → Except CompileError Unit) :
    (n.dependencyDemands interpret keyword check).isOk =
      n.value.members?.any fun triggers => triggers.all fun trigger =>
        (check trigger.2).isOk &&
          if trigger.2.isArray then trigger.2.isStrings else (interpret trigger.2).isOk := by
  rw [Node.dependencyDemands, isOk_members]
  congr 1
  funext triggers
  rw [isOk_mapM]
  refine all_congr_mem fun trigger _ => ?_
  refine isOk_bind fun _ _ => ?_
  rw [isOk_bind_pure]
  cases hv : trigger.2 with
  | array items => exact (isOk_bind_pure _ _).trans (isOk_expectStrings keyword _)
  | _ => rfl

theorem isOk_dependencyMap [Pattern.Engines] (n : Node) (keyword : String) :
    (n.dependencyDemands interpret keyword fun _ => .ok ()).isOk =
      (Keyword.dependencies.fits n.options n.value &&
        (Keyword.dependencies.subschemas n.members n.value).all fun part =>
          (interpret part).isOk) := by
  have either (trigger : String × Json) : ((Except.ok () : Except CompileError Unit).isOk &&
      if trigger.2.isArray then trigger.2.isStrings else (interpret trigger.2).isOk) =
        ((!trigger.2.isArray || trigger.2.isStrings) &&
          (trigger.2.isArray || (interpret trigger.2).isOk)) := by
    cases trigger.2.isArray <;> simp [Except.isOk, Except.toBool]
  simp only [isOk_dependencies, either,
    any_all_and _ _ fun part => part.isArray || (interpret part).isOk]
  refine congrArg (_ && ·) ?_
  rw [Keyword.subschemas, List.all_filter]
  simp [Keyword.parts]

theorem isOk_dependentRequired [Pattern.Engines] (n : Node) :
    (n.dependencyDemands interpret "dependentRequired" Node.checkNames).isOk =
      Keyword.dependentRequired.fits n.options n.value := by
  have names (trigger : String × Json) : ((Node.checkNames trigger.2).isOk &&
      if trigger.2.isArray then trigger.2.isStrings else (interpret trigger.2).isOk) =
        trigger.2.isStrings := by
    cases trigger.2 <;> rfl
  simp only [isOk_dependencies, names, Keyword.fits]

theorem isOk_dependentSchemas [Pattern.Engines] (n : Node) :
    (n.dependencyDemands interpret "dependentSchemas" Node.checkSchema).isOk =
      (Keyword.dependentSchemas.fits n.options n.value &&
        (Keyword.dependentSchemas.parts n.value).all fun part => (interpret part).isOk) := by
  have schema (trigger : String × Json) : ((Node.checkSchema trigger.2).isOk &&
      if trigger.2.isArray then trigger.2.isStrings else (interpret trigger.2).isOk) =
        (!trigger.2.isArray && (interpret trigger.2).isOk) := by
    cases trigger.2 <;> rfl
  simp only [isOk_dependencies, schema, any_all_and _ _ fun part => (interpret part).isOk]
  rfl

theorem isOk_assertion [Pattern.Engines] {k : Keyword} (hk : k.asserts = true) (n : Node) :
    (k.demands interpret n).isOk = (k.fits n.options n.value && k.legible n) := by
  have bare {x : Demands} {b : Bool} (hx : x.isOk = b) : x.isOk = (b && true) := by
    rw [hx, Bool.and_true]
  have limit {keyword : String} {f : Nat → List (Meaning (Option Json))} :
      (expectLimit keyword n.value >>= fun limit => (pure (f limit) : Demands)).isOk =
        ((limit? n.value).isSome && true) :=
    bare ((isOk_bind_pure _ _).trans (isOk_expectLimit keyword n.value))
  have number {keyword : String} {f : Number → List (Meaning (Option Json))} :
      (expectNumber keyword n.value >>= fun x => (pure (f x) : Demands)).isOk =
        (n.value.number?.isSome && true) :=
    bare ((isOk_bind_pure _ _).trans (isOk_expectNumber keyword n.value))
  cases k with
  | const => rfl
  | minLength | minItems | minProperties | maxLength | maxItems | maxProperties | minContains
  | maxContains => exact limit
  | minimum | maximum | exclusiveMinimum | exclusiveMaximum => exact number
  | enum =>
    refine bare ((isOk_bind (b := true) fun items _ => ?_).trans ?_)
    · split <;> rfl
    · rw [isOk_expectArray, Bool.and_true]
      rfl
  | pattern =>
    obtain ⟨options, table, members, value, ref⟩ := n
    cases value with
    | string source => exact bare ((isOk_bind_pure _ _).trans (isOk_patternOf options source))
    | _ => rfl
  | multipleOf =>
    obtain ⟨options, table, members, value, ref⟩ := n
    cases value with
    | number x =>
      change (if x.toNumeric.isPositive = true then _ else _ : Demands).isOk =
        (x.toNumeric.isPositive && true)
      cases x.toNumeric.isPositive <;> rfl
    | _ => rfl
  | uniqueItems =>
    obtain ⟨options, table, members, value, ref⟩ := n
    cases value with
    | bool b => cases b <;> rfl
    | _ => rfl
  | custom c =>
    change (n.customDemands c).isOk = (c.setUp n.members n.value).isOk
    rw [Node.customDemands]
    cases c.setUp n.members n.value <;> rfl
  | _ => cases hk

/-- What a keyword asks for can be told if its value fits, what it reads beside itself is legible,
and the schemas that it finds have a meaning. -/
theorem isOk_demands [Pattern.Engines] (h : (interpret (.bool false)).isOk = true) (k : Keyword)
    (hk : k ∉ [.type, .anyOf, .oneOf, .allOf]) (n : Node) :
    (k.demands interpret n).isOk = (k.fits n.options n.value && k.legible n &&
      (k.subschemas n.members n.value).all fun part => (interpret part).isOk) := by
  have whole {x : Demands} {b : Bool} (hx : x.isOk = (b && (interpret n.value).isOk)) :
      x.isOk = (true && b && [n.value].all fun part => (interpret part).isOk) := by
    rw [hx, List.all_cons, List.all_nil, Bool.and_true, Bool.true_and]
  have fields {x : Demands} {b c : Bool} (hx : x.isOk = (b && c)) : x.isOk = (b && true && c) := by
    rw [hx, Bool.and_true]
  cases k with
  | type | anyOf | oneOf | allOf => simp at hk
  | items => exact isOk_items h n
  | prefixItems =>
    obtain ⟨options, table, members, value, ref⟩ := n
    cases value with
    | array schemas => exact isOk_tuple schemas 0
    | _ => rfl
  | additionalItems => exact isOk_additionalItems h n
  | contains => exact whole (isOk_contains n)
  | additionalProperties => exact whole (isOk_additionalProperties h n)
  | propertyNames | not => exact whole (isOk_bind_pure _ _)
  | required =>
    refine fields (((isOk_bind_pure _ _).trans ?_).trans (Bool.and_true _).symm)
    exact isOk_expectStrings "required" n.value
  | properties => exact fields (isOk_properties n)
  | patternProperties => exact fields (isOk_patternProperties n)
  | dependencies => exact fields (isOk_dependencyMap n "dependencies")
  | dependentRequired => exact fields ((isOk_dependentRequired n).trans (Bool.and_true _).symm)
  | dependentSchemas => exact fields (isOk_dependentSchemas n)
  | _ =>
    rw [isOk_assertion rfl]
    exact (Bool.and_true _).symm

variable {enrich : Enrich}

theorem isOk_branches (n : Node) (schemas : List Json) (s : Reading) :
    (n.branchMeanings enrich s schemas).isOk =
      schemas.all fun part => (enrich part s.fork).isOk := by
  rw [Node.branchMeanings, isOk_mapM]
  simp only [isOk_bind_pure]

theorem isOk_foldlM {α : Type} {step : Reading → α → Except CompileError Reading}
    {good : α → Prop} {l : List α} (h : ∀ a ∈ l, ∀ s, (step s a).isOk = true ↔ good a)
    (s : Reading) : (l.foldlM step s).isOk = true ↔ ∀ a ∈ l, good a := by
  induction l generalizing s with
  | nil => exact iff_of_true rfl (fun a ha => nomatch ha)
  | cons a l ih =>
    have rest := ih fun b hb => h b (.tail _ hb)
    rw [List.foldlM_cons, List.forall_mem_cons, ← h a (by simp) s, ← rest s, ← Bool.and_eq_true]
    refine Bool.eq_iff_iff.mp (isOk_bind fun t _ => ?_)
    rw [Bool.eq_iff_iff, rest, rest]

end Keywords

end SchemaLogic
