import SchemaLogic.Proofs.Agreement
import SchemaLogic.Proofs.Denotation
import SchemaLogic.Proofs.Pruning

/-! # Keywords after pruning

A keyword asks for the same after pruning as before, or fails in both places. Inlining takes the
names under `dependentRequired` for keywords: there, none of them may be the name of a store. -/
namespace SchemaLogic

open Resolver

/-! ## Values of keywords -/

section Values

variable (siblings : Bool) (keyword : String) (value : Json)

theorem limit?_prune : limit? (prune siblings value) = limit? value :=
  prune_cases siblings (P := fun v w => limit? w = limit? v) (fun _ => rfl) (fun _ => rfl)
    (fun _ _ => rfl) value

theorem alike_expectLimit :
    Alike (expectLimit keyword value) (expectLimit keyword (prune siblings value)) := by
  rw [expectLimit, expectLimit, limit?_prune]
  split
  · exact .ok rfl
  · exact .error trivial

theorem alike_expectNumber :
    Alike (expectNumber keyword value) (expectNumber keyword (prune siblings value)) :=
  prune_cases siblings (P := fun v w => Alike (expectNumber keyword v) (expectNumber keyword w))
    (fun _ => .refl _) (fun _ => .error trivial) (fun _ _ => .error trivial) value

theorem agree_expectArray :
    Agree AnyError (fun items left => value = .array items ∧ left = items.map (prune siblings))
      (expectArray keyword value) (expectArray keyword (prune siblings value)) := by
  cases value with
  | array items =>
    rw [prune_array]
    exact .ok ⟨rfl, rfl⟩
  | object members =>
    obtain ⟨left, hleft⟩ := prune_object_shape siblings members
    rw [hleft]
    exact .error trivial
  | _ => exact .error trivial

theorem agree_expectNonEmptyArray :
    Agree AnyError (fun items left => value = .array items ∧ left = items.map (prune siblings))
      (expectNonEmptyArray keyword value) (expectNonEmptyArray keyword (prune siblings value)) := by
  cases value with
  | array items =>
    rw [prune_array]
    cases items with
    | nil => exact .error trivial
    | cons item rest => exact .ok ⟨rfl, rfl⟩
  | object members =>
    obtain ⟨left, hleft⟩ := prune_object_shape siblings members
    rw [hleft]
    exact .error trivial
  | _ => exact .error trivial

theorem alike_expectStrings :
    Alike (expectStrings keyword value) (expectStrings keyword (prune siblings value)) := by
  refine (agree_expectArray siblings keyword value).bind ?_
  rintro items left ⟨-, rfl⟩
  rw [strings_prune]
  split
  · exact .ok rfl
  · exact .error trivial

theorem agree_expectObject (hm : keyword ∈ schemaMaps) :
    Agree AnyError (fun schemas left => value = .object schemas ∧
        left = schemas.map fun entry => (entry.1, prune siblings entry.2))
      (expectObject keyword value) (expectObject keyword (pruneValue siblings keyword value)) := by
  cases value with
  | object schemas =>
    rw [pruneValue_map siblings hm]
    exact .ok ⟨rfl, rfl⟩
  | array items =>
    rw [pruneValue_eq_prune siblings (not_data_of_map hm) (.inr rfl), prune_array]
    exact .error trivial
  | _ =>
    rw [pruneValue_eq_prune siblings (not_data_of_map hm) (.inr rfl)]
    exact .error trivial

theorem alike_declaredTypes :
    Alike (Node.declaredTypes value) (Node.declaredTypes (prune siblings value)) := by
  refine prune_cases siblings
    (P := fun v w => Alike (Node.declaredTypes v) (Node.declaredTypes w)) (fun _ => .refl _)
    (fun items => ?_) (fun _ _ => .error trivial) value
  have hnames : (items.map (prune siblings)).mapM (fun v => v.string?.bind JsonType.ofName?) =
      items.mapM fun v => v.string?.bind JsonType.ofName? := by
    rw [List.mapM_map]
    refine congrArg (items.mapM ·) (funext fun v => ?_)
    exact congrArg (·.bind JsonType.ofName?) (string?_prune siblings v)
  simp only [Node.declaredTypes, hnames]
  split
  · exact .ok rfl
  · exact .error trivial

end Values

/-! ## Keywords -/

def Node.pruned (n : Node) (siblings : Bool) (name : String) : Node :=
  { n with
    members := pruneMembers siblings n.members
    value := pruneValue siblings name n.value }

namespace Node

variable (siblings : Bool) (n : Node)

theorem value_pruned {name : String} (h : Entered name) :
    (n.pruned siblings name).value = prune siblings n.value :=
  congrFun (pruneValue_entered siblings h) n.value

theorem sibling?_pruned (name : String) {other : String} (h : Entered other) :
    (n.pruned siblings name).sibling? other = (n.sibling? other).map (prune siblings) := by
  rw [← pruneValue_entered siblings h]
  exact lookup_pruneMembers siblings (.inl h) n.members

theorem prefixLength_pruned (name : String) :
    (n.pruned siblings name).prefixLength = n.prefixLength := by
  rw [prefixLength, prefixLength, n.sibling?_pruned siblings name (by decide)]
  rcases n.sibling? "prefixItems" with _ | value
  · rfl
  · refine congrArg (if n.table.contains "prefixItems" = true then · else 0) ?_
    cases value with
    | array items => simp only [Option.map_some, prune_array, List.length_map]
    | object members =>
      obtain ⟨left, hleft⟩ := prune_object_shape siblings members
      simp only [Option.map_some, hleft]
    | _ => rfl

theorem requiredNames_pruned (name : String) :
    (n.pruned siblings name).requiredNames = n.requiredNames := by
  rw [requiredNames, requiredNames, n.sibling?_pruned siblings name (by decide)]
  rcases n.sibling? "required" with _ | value
  · rfl
  · cases value with
    | array items =>
      simp only [Option.map_some, prune_array, List.filterMap_map]
      exact congrArg (items.filterMap ·) (funext (string?_prune siblings))
    | object members =>
      obtain ⟨left, hleft⟩ := prune_object_shape siblings members
      simp only [Option.map_some, hleft]
    | _ => rfl

theorem siblingNames_pruned (name other : String) (hm : other ∈ schemaMaps) :
    ((n.pruned siblings name).siblingMembers other).map Prod.fst =
      (n.siblingMembers other).map Prod.fst := by
  have hs : (n.pruned siblings name).sibling? other =
      (n.sibling? other).map (pruneValue siblings other) :=
    lookup_pruneMembers siblings (.inr hm) n.members
  rw [siblingMembers, siblingMembers, hs]
  rcases n.sibling? other with _ | value
  · rfl
  · cases value with
    | object schemas => simp [pruneValue_map siblings hm, Function.comp_def]
    | array items =>
      rw [Option.map_some, pruneValue_eq_prune siblings (not_data_of_map hm) (.inr rfl),
        prune_array]
    | _ =>
      rw [Option.map_some, pruneValue_eq_prune siblings (not_data_of_map hm) (.inr rfl)]
      rfl

theorem alike_containsBound (name : String) {keyword : String} (h : Entered keyword) :
    Alike (n.containsBound keyword) ((n.pruned siblings name).containsBound keyword) := by
  rw [containsBound, containsBound, n.sibling?_pruned siblings name h]
  change Alike (if n.table.contains keyword = true then _ else _)
    (if n.table.contains keyword = true then _ else _)
  split
  · rcases n.sibling? keyword with _ | value
    · exact .ok rfl
    · exact (alike_expectLimit siblings keyword value).bind fun limit => .ok rfl
  · exact .ok rfl

end Node

section Demands

variable {siblings : Bool} {f : Interpret} {n : Node}

/-- Pruning a schema does not change what it means. -/
def Kept (siblings : Bool) (f : Interpret) (schema : Json) : Prop :=
  Alike (f schema) (f (prune siblings schema))

section Plain

variable {name : String} (hn : Entered name)
include hn

theorem alike_leastDemands (measure : Measure) : Alike (n.leastDemands name measure)
    ((n.pruned siblings name).leastDemands name measure) := by
  rw [Node.leastDemands, Node.leastDemands, n.value_pruned siblings hn]
  exact (alike_expectLimit siblings name n.value).bind fun limit => .refl _

theorem alike_mostDemands (measure : Measure) : Alike (n.mostDemands name measure)
    ((n.pruned siblings name).mostDemands name measure) := by
  rw [Node.mostDemands, Node.mostDemands, n.value_pruned siblings hn]
  exact (alike_expectLimit siblings name n.value).bind fun limit => .refl _

theorem alike_boundDemands (op : CmpOp) : Alike (n.boundDemands name op)
    ((n.pruned siblings name).boundDemands name op) := by
  rw [Node.boundDemands, Node.boundDemands, n.value_pruned siblings hn]
  exact (alike_expectNumber siblings name n.value).bind fun limit => .refl _

theorem alike_containsBoundDemands (op : CmpOp) : Alike (n.containsBoundDemands name op)
    ((n.pruned siblings name).containsBoundDemands name op) := by
  rw [Node.containsBoundDemands, Node.containsBoundDemands, n.value_pruned siblings hn,
    n.sibling?_pruned siblings name (by decide), Option.isSome_map]
  exact (alike_expectLimit siblings name n.value).bind fun limit => .refl _

end Plain

theorem alike_divisorDemands :
    Alike n.divisorDemands (n.pruned siblings "multipleOf").divisorDemands := by
  rw [Node.divisorDemands, Node.divisorDemands, n.value_pruned siblings (by decide)]
  refine (alike_expectNumber siblings _ n.value).bind fun number => ?_
  split
  · exact .refl _
  · exact .error trivial

theorem alike_patternDemands [Pattern.Engines] :
    Alike n.patternDemands (n.pruned siblings "pattern").patternDemands := by
  rw [Node.patternDemands, Node.patternDemands, n.value_pruned siblings (by decide)]
  exact prune_cases siblings (P := fun v w => Alike (Node.patternDemands { n with value := v })
    (Node.patternDemands { n with value := w })) (fun _ => .refl _) (fun _ => .error trivial)
    (fun _ _ => .error trivial) n.value

theorem alike_uniqueDemands :
    Alike n.uniqueDemands (n.pruned siblings "uniqueItems").uniqueDemands := by
  rw [Node.uniqueDemands, Node.uniqueDemands, n.value_pruned siblings (by decide)]
  exact prune_cases siblings (P := fun v w => Alike (Node.uniqueDemands { n with value := v })
    (Node.uniqueDemands { n with value := w })) (fun _ => .refl _) (fun _ => .error trivial)
    (fun _ _ => .error trivial) n.value

theorem alike_requiredDemands :
    Alike n.requiredDemands (n.pruned siblings "required").requiredDemands := by
  rw [Node.requiredDemands, Node.requiredDemands, n.value_pruned siblings (by decide)]
  exact (alike_expectStrings siblings _ n.value).bind fun names => .refl _

theorem alike_tupleDemands {schemas : List Json} (h : ∀ schema ∈ schemas, Kept siblings f schema)
    (start : Nat) : Alike (Node.tupleDemands f start schemas)
      (Node.tupleDemands f start (schemas.map (prune siblings))) := by
  rw [Node.tupleDemands, Node.tupleDemands, List.zipIdx_map]
  exact alike_mapM fun entry he =>
    (h entry.1 (List.fst_mem_of_mem_zipIdx he)).bind fun m => .ok rfl

theorem alike_restDemands {schema : Json} (h : Kept siblings f schema) (start : Nat) :
    Alike (Node.restDemands f schema start)
      (Node.restDemands f (prune siblings schema) start) := by
  simp only [Node.restDemands, isFalse_prune]
  split
  · exact .ok rfl
  · exact h.bind fun m => .refl _

theorem alike_itemsDemands (h : ∀ part ∈ Keyword.items.parts n.value, Kept siblings f part) :
    Alike (n.itemsDemands f) ((n.pruned siblings "items").itemsDemands f) := by
  rw [Node.itemsDemands, Node.itemsDemands, n.value_pruned siblings (by decide),
    n.prefixLength_pruned siblings]
  cases hv : n.value with
  | array schemas =>
    rw [hv] at h
    rw [prune_array]
    exact alike_tupleDemands h 0
  | object members =>
    rw [hv] at h
    obtain ⟨left, hleft⟩ := prune_object_shape siblings members
    have hrest := alike_restDemands (h _ (.head _)) n.prefixLength
    rw [hleft] at hrest ⊢
    exact hrest
  | _ =>
    rw [hv] at h
    exact alike_restDemands (h _ (.head _)) n.prefixLength

theorem alike_positionDemands
    (h : ∀ part ∈ Keyword.prefixItems.parts n.value, Kept siblings f part) :
    Alike (n.positionDemands f) ((n.pruned siblings "prefixItems").positionDemands f) := by
  rw [Node.positionDemands, Node.positionDemands, n.value_pruned siblings (by decide)]
  refine (agree_expectArray siblings _ n.value).bind ?_
  rintro schemas left ⟨hv, rfl⟩
  rw [hv] at h
  exact alike_tupleDemands h 0

theorem alike_additionalItemsDemands (h : Kept siblings f n.value) :
    Alike (n.additionalItemsDemands f)
      ((n.pruned siblings "additionalItems").additionalItemsDemands f) := by
  rw [Node.additionalItemsDemands, Node.additionalItemsDemands, n.value_pruned siblings (by decide),
    n.sibling?_pruned siblings _ (by decide)]
  rcases n.sibling? "items" with _ | value
  · exact .ok rfl
  · cases value with
    | array schemas =>
      simp only [Option.map_some, prune_array, List.length_map]
      exact alike_restDemands h schemas.length
    | object members =>
      obtain ⟨left, hleft⟩ := prune_object_shape siblings members
      rw [Option.map_some, hleft]
      exact .ok rfl
    | _ => exact .ok rfl

theorem alike_containsDemands (h : Kept siblings f n.value) :
    Alike (n.containsDemands f) ((n.pruned siblings "contains").containsDemands f) := by
  rw [Node.containsDemands, Node.containsDemands, n.value_pruned siblings (by decide)]
  refine (n.alike_containsBound siblings _ (by decide)).bind fun least => ?_
  refine (n.alike_containsBound siblings _ (by decide)).bind fun most => ?_
  exact h.bind fun m => .refl _

theorem alike_propertyDemands
    (h : ∀ part ∈ Keyword.properties.parts n.value, Kept siblings f part) :
    Alike (n.propertyDemands f) ((n.pruned siblings "properties").propertyDemands f) := by
  rw [Node.propertyDemands, Node.propertyDemands, n.requiredNames_pruned siblings]
  refine (agree_expectObject siblings _ n.value (by decide)).bind ?_
  rintro schemas left ⟨hv, rfl⟩
  rw [hv] at h
  exact alike_mapM fun entry he => (h entry.2 (List.mem_map_of_mem he)).bind fun m => .ok rfl

theorem alike_patternPropertyDemands [Pattern.Engines]
    (h : ∀ part ∈ Keyword.patternProperties.parts n.value, Kept siblings f part) :
    Alike (n.patternPropertyDemands f)
      ((n.pruned siblings "patternProperties").patternPropertyDemands f) := by
  rw [Node.patternPropertyDemands, Node.patternPropertyDemands]
  refine (agree_expectObject siblings _ n.value (by decide)).bind ?_
  rintro schemas left ⟨hv, rfl⟩
  rw [hv] at h
  refine Alike.bind (alike_mapM fun entry he => ?_) fun clauses => .ok rfl
  refine (Alike.refl (n.keyMatching entry.1)).bind fun key => ?_
  exact Alike.bind (h entry.2 (List.mem_map_of_mem he)) fun m => .ok rfl

theorem alike_propertyNameDemands (h : Kept siblings f n.value) : Alike (n.propertyNameDemands f)
    ((n.pruned siblings "propertyNames").propertyNameDemands f) := by
  rw [Node.propertyNameDemands, Node.propertyNameDemands, n.value_pruned siblings (by decide)]
  exact h.bind fun m => .refl _

theorem alike_notDemands (h : Kept siblings f n.value) :
    Alike (n.notDemands f) ((n.pruned siblings "not").notDemands f) := by
  rw [Node.notDemands, Node.notDemands, n.value_pruned siblings (by decide)]
  exact h.bind fun m => .refl _

theorem alike_spareMeaning {schema : Json} (h : Kept siblings f schema) :
    Alike (Node.spareMeaning f schema) (Node.spareMeaning f (prune siblings schema)) := by
  cases schema with
  | bool b => exact .refl _
  | array items =>
    rw [Kept, prune_array] at h
    rw [prune_array]
    exact h
  | object members =>
    obtain ⟨left, hleft⟩ := prune_object_shape siblings members
    rw [Kept, hleft] at h
    rw [hleft]
    exact h
  | _ => exact h

theorem alike_additionalPropertyDemands [Pattern.Engines] (h : Kept siblings f n.value) :
    Alike (n.additionalPropertyDemands f)
      ((n.pruned siblings "additionalProperties").additionalPropertyDemands f) := by
  have hnamed (g : String → Meaning (Option Json × Option Json)) :
      (n.siblingMembers "properties").map (fun entry => g entry.1) =
        ((n.pruned siblings "additionalProperties").siblingMembers "properties").map
          fun entry => g entry.1 := by
    have hnames := n.siblingNames_pruned siblings "additionalProperties" "properties" (by decide)
    simpa [Function.comp_def] using congrArg (List.map g) hnames.symm
  rw [Node.additionalPropertyDemands, Node.additionalPropertyDemands,
    n.value_pruned siblings (by decide), n.siblingNames_pruned siblings _ _ (by decide)]
  refine Alike.bind (.refl _) fun matched => ?_
  refine (alike_spareMeaning h).bind fun m => .ok ?_
  exact congrArg (fun named => [Meaning.everyKey (.disj (named ++ matched ++ [m.along Prod.snd]))])
    (hnamed fun name => (Meaning.look (·.equalsScalar (.string name))).along Prod.fst)

theorem alike_dependencyMeaning {keyword name : String} {value : Json}
    (h : Kept siblings f value) : Alike (n.dependencyMeaning f keyword value)
      ((n.pruned siblings name).dependencyMeaning f keyword (prune siblings value)) := by
  have hstrings := alike_expectStrings siblings keyword value
  cases value with
  | array items =>
    rw [prune_array] at hstrings ⊢
    exact hstrings.bind fun names => .ok rfl
  | object members =>
    obtain ⟨left, hleft⟩ := prune_object_shape siblings members
    rw [Kept, hleft] at h
    rw [hleft]
    exact h
  | _ => exact h

theorem alike_dependencyDemands {keyword : String} {check : Json → Except CompileError Unit}
    (hm : keyword ∈ schemaMaps)
    (hcheck : ∀ value, Alike (check value) (check (prune siblings value)))
    (h : ∀ part ∈ (n.value.members?.getD []).map Prod.snd, Kept siblings f part) :
    Alike (n.dependencyDemands f keyword check)
      ((n.pruned siblings keyword).dependencyDemands f keyword check) := by
  rw [Node.dependencyDemands, Node.dependencyDemands]
  refine (agree_expectObject siblings _ n.value hm).bind ?_
  rintro triggers left ⟨hv, rfl⟩
  rw [hv] at h
  refine alike_mapM fun entry he => (hcheck entry.2).bind fun _ => ?_
  exact (alike_dependencyMeaning (h entry.2 (List.mem_map_of_mem he))).bind fun m => .ok rfl

theorem alike_checkSchema (value : Json) :
    Alike (Node.checkSchema value) (Node.checkSchema (prune siblings value)) :=
  prune_cases siblings (P := fun v w => Alike (Node.checkSchema v) (Node.checkSchema w))
    (fun _ => .refl _) (fun _ => .error trivial) (fun _ _ => .ok rfl) value

theorem pruneMembers_eq_map {members : Json.Members}
    (h : ∀ member ∈ members, dropped member = false) : pruneMembers siblings members =
      members.map fun member => (member.1, pruneValue siblings member.1 member.2) := by
  induction members with
  | nil => rfl
  | cons member rest ih =>
    rw [pruneMembers_cons, h member (by simp), ih fun other ho => h other (.tail _ ho)]
    rfl

/-- The names that a trigger asks for stay, whatever keyword inlining takes it for. -/
theorem alike_names (name keyword trigger : String) (value : Json)
    (g : Meaning (Option Json) → Meaning (Option Json)) :
    Alike (do
        Node.checkNames value
        let m ← n.dependencyMeaning f keyword value
        return g m)
      (do
        Node.checkNames (pruneValue siblings trigger value)
        let m ← (n.pruned siblings name).dependencyMeaning f keyword
          (pruneValue siblings trigger value)
        return g m) := by
  by_cases hd : trigger ∈ dataKeywords
  · have hvalue : pruneValue siblings trigger value = value := if_pos (by simpa using hd)
    rw [hvalue]
    exact .refl _
  · cases value with
    | array items =>
      rw [pruneValue_eq_prune siblings hd (.inr rfl)]
      have hstrings := alike_expectStrings siblings keyword (.array items)
      rw [prune_array] at hstrings ⊢
      exact (hstrings.bind fun names => .ok rfl).bind fun m => .ok rfl
    | object members =>
      by_cases hm : trigger ∈ schemaMaps
      · rw [pruneValue_map siblings hm]
        exact .error trivial
      · obtain ⟨left, hleft⟩ := prune_object_shape siblings members
        rw [pruneValue_eq_prune siblings hd (.inl hm), hleft]
        exact .error trivial
    | _ =>
      rw [pruneValue_eq_prune siblings hd (.inr rfl)]
      exact .error trivial

theorem alike_dependentRequired (hfree : n.value.lacks "$ref" = true)
    (hkeep : ∀ triggers, n.value = .object triggers →
      ∀ store ∈ storeKeywords, triggers.lookup store = none) :
    Alike (n.dependencyDemands f "dependentRequired" Node.checkNames)
      ((n.pruned siblings "dependentRequired").dependencyDemands f "dependentRequired"
        Node.checkNames) := by
  rw [Node.dependencyDemands, Node.dependencyDemands, n.value_pruned siblings (by decide)]
  cases hv : n.value with
  | object triggers =>
    rw [hv] at hfree
    have hdropped : ∀ member ∈ triggers, dropped member = false := by
      intro member hm
      have href := (Json.lacks_member hfree member hm).1
      have hstore : member.1 ∉ storeKeywords := by
        intro hs
        have hnone := hkeep triggers hv member.1 hs
        rw [List.lookup_eq_none_iff] at hnone
        simpa using hnone member hm
      simp [dropped, hstore, href]
    rw [prune_object siblings (reference?_of_lacks hfree), pruneMembers_eq_map hdropped]
    exact alike_mapM fun entry _ => alike_names _ _ entry.1 entry.2 _
  | array items =>
    rw [prune_array]
    exact .error trivial
  | _ => exact .error trivial

/-- What a keyword asks for stays, if the schemas inside keep their meaning and no trigger of
`dependentRequired` is left out. -/
theorem alike_demands [Pattern.Engines] (k : Keyword) (hk : ∀ c, k ≠ .custom c)
    (hfree : n.value.lacks "$ref" = true)
    (hkeep : k = .dependentRequired → ∀ triggers, n.value = .object triggers →
      ∀ store ∈ storeKeywords, triggers.lookup store = none)
    (h : ∀ part ∈ k.parts n.value, Kept siblings f part) :
    Alike (k.demands f n) (k.demands f (n.pruned siblings k.name)) := by
  cases k with
  | enum | const => exact .refl _
  | type | anyOf | oneOf | allOf => exact .ok rfl
  | minLength | minItems | minProperties => exact alike_leastDemands (by decide) _
  | maxLength | maxItems | maxProperties => exact alike_mostDemands (by decide) _
  | minimum | maximum | exclusiveMinimum | exclusiveMaximum =>
    exact alike_boundDemands (by decide) _
  | multipleOf => exact alike_divisorDemands
  | pattern => exact alike_patternDemands
  | uniqueItems => exact alike_uniqueDemands
  | items => exact alike_itemsDemands h
  | prefixItems => exact alike_positionDemands h
  | additionalItems => exact alike_additionalItemsDemands (h _ (.head _))
  | contains => exact alike_containsDemands (h _ (.head _))
  | minContains | maxContains => exact alike_containsBoundDemands (by decide) _
  | propertyNames => exact alike_propertyNameDemands (h _ (.head _))
  | required => exact alike_requiredDemands
  | properties => exact alike_propertyDemands h
  | patternProperties => exact alike_patternPropertyDemands h
  | additionalProperties => exact alike_additionalPropertyDemands (h _ (.head _))
  | dependencies => exact alike_dependencyDemands (by decide) (fun _ => .ok rfl) h
  | dependentSchemas => exact alike_dependencyDemands (by decide) alike_checkSchema h
  | dependentRequired => exact alike_dependentRequired hfree (hkeep rfl)
  | not => exact alike_notDemands (h _ (.head _))
  | custom c => exact absurd rfl (hk c)

end Demands

end SchemaLogic
