import SchemaLogic.Proofs.Denotation

/-! # Direct interpretation of schemas

A schema judges a value keyword by keyword: nothing is collected, declared or handed on from one
keyword to another. The members of a value are looked up by name. -/
namespace SchemaLogic

/-- How schemas judge values. -/
abbrev Accepts := Json → Json → Bool

namespace Json

def number? : Json → Option Number
  | .number n => some n
  | _ => none

def elements (json : Json) : List Json := json.items?.getD []

def fields (json : Json) : Members := json.members?.getD []

def texts (json : Json) : List String := json.elements.filterMap string?

def Members.each (members : Members) (p : String → Json → Bool) : Bool :=
  members.all fun (name, _) => (members.lookup name).all (p name)

end Json

/-- A value is of a type; integers are the numbers with zero fraction. -/
def JsonType.admits : JsonType → Json → Bool
  | .array, .array _ => true
  | .boolean, .bool _ => true
  | .integer, .number n => n.isInteger
  | .null, .null => true
  | .number, .number _ => true
  | .object, .object _ => true
  | .string, .string _ => true
  | _, _ => false

/-- The value of a keyword, with the schema object that it stands in. -/
structure Rule where
  options : Options
  table : Table
  members : Json.Members
  value : Json

namespace Rule

def sibling? (r : Rule) (name : String) : Option Json := r.members.lookup name

def known? (r : Rule) (name : String) : Option Json :=
  if r.table.contains name then r.sibling? name else none

def typeNames (r : Rule) : List String :=
  match r.value with
  | .string name => [name]
  | value => value.texts

def equates (r : Rule) : Json → Json → Bool :=
  if r.options.fastAssertions then Json.same else Json.equal

def width (r : Rule) (text : String) : Nat :=
  if r.options.strictStringWidth then text.length else Text.unitCount text

def matches? [Pattern.Engines] (r : Rule) (source text : String) : Bool :=
  (Pattern.compile? r.options.unicodeAwareRegex source).any (·.isMatch text)

def atLeast (r : Rule) (n : Nat) : Bool := (limit? r.value).all (· ≤ n)

def atMost (r : Rule) (n : Nat) : Bool := (limit? r.value).all (n ≤ ·)

def compares (r : Rule) (op : CmpOp) (x : Number) : Bool :=
  r.value.number?.all fun limit => (x.toNumeric.compare? limit.toNumeric).any op.holds

/-- Divisibility, in decimals where that is asked for and the divisor can be read as one. -/
def divides (r : Rule) (x : Number) : Bool :=
  r.value.number?.all fun divisor =>
    match if r.options.accurateMultipleOf then Decimal.parse? divisor.text else none with
    | some exact => (Decimal.parse? x.text).any (·.isMultipleOf exact)
    | none => x.toNumeric.isMultipleOf divisor.toNumeric

def positional (accepts : Accepts) (schemas items : List Json) : Bool :=
  (schemas.zip items).all fun (schema, item) => accepts schema item

/-- What the presence of a member asks for: other members, or a schema for the whole object. -/
def dependent (accepts : Accepts) (members : Json.Members) (value : Json) : Bool :=
  match value with
  | .array _ => value.texts.all fun name => (members.lookup name).isSome
  | schema => accepts schema (.object members)

end Rule

/-- A keyword holds of a value, given how schemas judge. The keywords about strings, numbers,
arrays and objects hold of all other values. -/
def Keyword.holds [Pattern.Engines] (k : Keyword) (accepts : Accepts) (r : Rule) (v : Json) :
    Bool :=
  match k with
  | .type => r.typeNames.any fun name => (JsonType.ofName? name).any (·.admits v)
  | .enum => r.value.elements.any (r.equates · v)
  | .const => r.value.equal v
  | .minLength => v.string?.all fun text => r.atLeast (r.width text)
  | .maxLength => v.string?.all fun text => r.atMost (r.width text)
  | .pattern => v.string?.all fun text => r.value.string?.all (r.matches? · text)
  | .multipleOf => v.number?.all r.divides
  | .minimum => v.number?.all (r.compares .ge)
  | .maximum => v.number?.all (r.compares .le)
  | .exclusiveMinimum => v.number?.all (r.compares .gt)
  | .exclusiveMaximum => v.number?.all (r.compares .lt)
  | .minItems => v.items?.all fun items => r.atLeast items.length
  | .maxItems => v.items?.all fun items => r.atMost items.length
  | .uniqueItems => v.items?.all fun items =>
    r.value != .bool true || items.Pairwise fun a b => r.equates a b = false
  | .items => v.items?.all fun items =>
    match r.value with
    | .array schemas => Rule.positional accepts schemas items
    | schema =>
      let covered := ((r.known? "prefixItems").bind Json.items?).getD []
      (items.drop covered.length).all (accepts schema)
  | .prefixItems => v.items?.all (Rule.positional accepts r.value.elements)
  | .additionalItems => v.items?.all fun items =>
    ((r.sibling? "items").bind Json.items?).all fun schemas =>
      (items.drop schemas.length).all (accepts r.value)
  | .contains => v.items?.all fun items =>
    let matching := items.countP (accepts r.value)
    ((r.known? "minContains").bind limit?).getD 1 ≤ matching
      && ((r.known? "maxContains").bind limit?).all (matching ≤ ·)
  -- Without `contains` every item counts as a match.
  | .minContains => v.items?.all fun items =>
    (r.sibling? "contains").isSome || r.atLeast items.length
  | .maxContains => v.items?.all fun items =>
    (r.sibling? "contains").isSome || r.atMost items.length
  | .propertyNames => v.members?.all fun members =>
    members.all fun (name, _) => accepts r.value (.string name)
  | .minProperties => v.members?.all fun members => r.atLeast members.length
  | .maxProperties => v.members?.all fun members => r.atMost members.length
  | .required => v.members?.all fun members =>
    r.value.texts.all fun name => (members.lookup name).isSome
  | .properties => v.members?.all fun members =>
    r.value.fields.all fun (name, schema) => (members.lookup name).all (accepts schema)
  | .patternProperties => v.members?.all fun members =>
    members.each fun name x => r.value.fields.all fun (source, schema) =>
      !r.matches? source name || accepts schema x
  | .additionalProperties => v.members?.all fun members =>
    members.each fun name x =>
      ((r.sibling? "properties").getD .null).fields.any (name == ·.1)
        || ((r.sibling? "patternProperties").getD .null).fields.any (r.matches? ·.1 name)
        || accepts r.value x
  | .dependencies | .dependentRequired | .dependentSchemas => v.members?.all fun members =>
    r.value.fields.all fun (trigger, value) =>
      (members.lookup trigger).isNone || Rule.dependent accepts members value
  | .anyOf => r.value.elements.any (accepts · v)
  | .oneOf => r.value.elements.countP (accepts · v) == 1
  | .allOf => r.value.elements.all (accepts · v)
  | .not => !accepts r.value v
  | .custom c =>
    match c.setUp r.members r.value with
    | .ok check => check v
    | .error _ => true

def keywordsHold [Pattern.Engines] (accepts : Accepts) (o : Options) (table : Table)
    (members : Json.Members) (v : Json) : Bool :=
  table.all fun pass => members.all fun member =>
    (pass.get? member.1).all fun k => k.holds accepts ⟨o, table, members, member.2⟩ v

def acceptsAt [Pattern.Engines] (o : Options) (table : Table) : Nat → Accepts
  | _, .bool b, _ => b
  | fuel + 1, .object members, v => keywordsHold (acceptsAt o table fuel) o table members v
  | _, _, _ => false

/-- A schema accepts a value. -/
def accepts [Pattern.Engines] (o : Options) (table : Table) : Accepts := fun schema v =>
  acceptsAt o table (schema.depth + 1) schema v

/-! ## Schemas inside schemas -/

theorem all_congr_mem {α : Type} {p q : α → Bool} {l : List α} (h : ∀ a ∈ l, p a = q a) :
    l.all p = l.all q := by
  rw [Bool.eq_iff_iff, List.all_eq_true, List.all_eq_true]
  exact forall₂_congr fun a ha => by rw [h a ha]

theorem Json.depth_element {json item : Json} (h : item ∈ json.elements) :
    item.depth < json.depth := by
  cases json with
  | array items => exact depth_item h
  | _ => simp [elements, items?] at h

theorem Json.depth_field {json : Json} {field : String × Json} (h : field ∈ json.fields) :
    field.2.depth < json.depth := by
  cases json with
  | object members => exact depth_member h
  | _ => simp [fields, members?] at h

section Congruence

variable {f g : Accepts} {r : Rule}

theorem positional_congr {schemas : List Json} (h : ∀ sub ∈ schemas, ∀ x, f sub x = g sub x)
    (items : List Json) : Rule.positional f schemas items = Rule.positional g schemas items := by
  apply all_congr_mem
  rintro ⟨sub, x⟩ hp
  exact h sub (List.of_mem_zip hp).1 x

variable [Pattern.Engines]

/-- A keyword asks only schemas inside its value. -/
theorem holds_congr (k : Keyword)
    (h : ∀ sub : Json, sub.depth ≤ r.value.depth → ∀ x, f sub x = g sub x) (v : Json) :
    k.holds f r v = k.holds g r v := by
  have whole : f r.value = g r.value := funext (h _ (Nat.le_refl _))
  have item : ∀ sub ∈ r.value.elements, ∀ x, f sub x = g sub x := by
    intro sub hs
    exact h sub (Nat.le_of_lt (Json.depth_element hs))
  have member : ∀ p ∈ r.value.fields, ∀ x, f p.2 x = g p.2 x := by
    intro p hp
    exact h p.2 (Nat.le_of_lt (Json.depth_field hp))
  have each {p q : String × Json → Bool} (hpq : ∀ m : String × Json, f m.2 = g m.2 → p m = q m) :
      r.value.fields.all p = r.value.fields.all q :=
    all_congr_mem fun m hm => hpq m (funext (member m hm))
  cases k with
  | items =>
    simp only [Keyword.holds]
    congr 1
    funext items
    split
    · next hv =>
      rw [hv] at item
      exact positional_congr item items
    · rw [whole]
  | prefixItems =>
    simp only [Keyword.holds]
    congr 1
    exact funext (positional_congr item)
  | additionalItems | contains | propertyNames | additionalProperties | not =>
    simp only [Keyword.holds, whole]
  | properties =>
    simp only [Keyword.holds]
    congr 1
    funext members
    exact each fun m hm => by rw [hm]
  | patternProperties =>
    simp only [Keyword.holds]
    congr 1
    funext members
    congr 1
    funext name x
    exact each fun m hm => by rw [hm]
  | dependencies | dependentRequired | dependentSchemas =>
    simp only [Keyword.holds]
    congr 1
    funext members
    exact each fun m hm => by
      simp only [Rule.dependent]
      split
      · rfl
      · rw [hm]
  | anyOf =>
    simp only [Keyword.holds]
    rw [Bool.eq_iff_iff, List.any_eq_true, List.any_eq_true]
    exact exists_congr fun sub => and_congr_right fun hs => by rw [item sub hs]
  | oneOf =>
    simp only [Keyword.holds]
    rw [List.countP_congr fun sub hs => by rw [item sub hs]]
  | allOf => exact all_congr_mem fun sub hs => item sub hs v
  | _ => rfl

theorem keywordsHold_congr {o : Options} {table : Table} {members : Json.Members}
    (h : ∀ sub : Json, sub.depth < (Json.object members).depth → ∀ x, f sub x = g sub x)
    (v : Json) :
    keywordsHold f o table members v = keywordsHold g o table members v := by
  apply all_congr_mem
  intro pass _
  apply all_congr_mem
  intro member hm
  congr 1
  funext k
  apply holds_congr k
  intro sub hs
  exact h sub (Nat.lt_of_le_of_lt hs (Json.depth_member hm))

end Congruence

variable [Pattern.Engines]

theorem acceptsAt_fuel (o : Options) (table : Table) {fuel other : Nat} {schema : Json}
    (h : schema.depth < fuel) (k : schema.depth < other) (v : Json) :
    acceptsAt o table fuel schema v = acceptsAt o table other schema v := by
  induction fuel generalizing other schema v with
  | zero => omega
  | succ fuel ih =>
    obtain _ | other := other
    · omega
    cases schema with
    | object members =>
      exact keywordsHold_congr (fun sub hs x => ih (by omega) (by omega) x) v
    | bool b => simp [acceptsAt]
    | _ => simp [acceptsAt]

theorem acceptsAt_bool (o : Options) (table : Table) (fuel : Nat) (b : Bool) (v : Json) :
    acceptsAt o table fuel (.bool b) v = b := by cases fuel <;> rfl

theorem accepts_bool (o : Options) (table : Table) (b : Bool) (v : Json) :
    accepts o table (.bool b) v = b := acceptsAt_bool o table _ b v

/-- A schema object accepts what all its keywords accept, at any depth. -/
theorem accepts_object (o : Options) (table : Table) (members : Json.Members) (v : Json) :
    accepts o table (.object members) v = keywordsHold (accepts o table) o table members v :=
  keywordsHold_congr (fun _ hs => acceptsAt_fuel o table hs (Nat.lt_succ_self _)) v

end SchemaLogic
