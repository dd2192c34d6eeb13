import SchemaLogic.Proofs.Compilation
import SchemaLogic.Proofs.Merging

/-! # Compiled conditions are in normal form

Handlers fold what they build, and a scope leaves out what is always true, so the only constant
that gets as far as a scope is false. A scope that is closed then has no constant in it either, or
is false as a whole. Conditions and bodies of routines all come out of closed scopes. -/
namespace SchemaLogic

namespace Expr

/-- Either false, or without constants and with nothing left to fold. -/
def Final (e : Expr) : Prop := e = .const false ∨ e.Normal

variable {es : List Expr} {e : Expr}

theorem Final.folded (h : e.Final) : e.Folded := by
  rcases h with rfl | h
  · exact folded_const false
  · exact Or.inr h

theorem Final.const?_ne_true (h : e.Final) : e.const? ≠ some true := by
  rcases h with rfl | h
  · simp [const?]
  · simp [h.const?_eq_none]

theorem Folded.final (h : e.Folded) (hc : e.const? ≠ some true) : e.Final := by
  cases hk : e.const? with
  | none => exact Or.inr (h.normal hk)
  | some b =>
    cases b
    · exact Or.inl (eq_const_of_const? hk)
    · exact (hc hk).elim

theorem Final.leaf (h : e.Tidy) (he : e.operands = []) : e.Final := Or.inr (.leaf h he)

theorem Folded.leaf (h : e.Tidy) (he : e.operands = []) : e.Folded := Or.inr (.leaf h he)

theorem folded_conj (h : ∀ e ∈ es, e.Folded) : (conj es).Folded :=
  conj_eq_joined es ▸ (folded_joined h).1

theorem folded_disj (h : ∀ e ∈ es, e.Folded) : (disj es).Folded :=
  disj_eq_joined es ▸ (folded_joined h).1

theorem folded_guarded {guard : Expr} (hg : guard.Folded) (h : e.Folded) :
    (disj [guard, e]).Folded := by
  apply folded_disj
  simp only [List.mem_cons, List.not_mem_nil, or_false, forall_eq_or_imp, forall_eq]
  exact ⟨hg, h⟩

theorem final_conj (hne : es ≠ []) (h : ∀ e ∈ es, e.Final) : (conj es).Final := by
  obtain ⟨hf, hc⟩ := folded_joined (b := true) fun e he => (h e he).folded
  rw [conj_eq_joined]
  refine hf.final ?_
  rw [hc]
  split
  · simp
  · next hd =>
    obtain ⟨e, he⟩ := List.exists_mem_of_ne_nil es hne
    -- no operand decides the conjunction, so this one is no constant
    have hn : e.const? = none := by
      cases hk : e.const? with
      | none => rfl
      | some b =>
        cases b
        · exact (hd (List.any_eq_true.mpr ⟨e, he, by simp [hk]⟩)).elim
        · exact ((h e he).const?_ne_true hk).elim
    have ha : ¬es.all (·.const?.isSome) = true := fun ha => by
      have := List.all_eq_true.mp ha e he
      simp [hn] at this
    simp [ha]

theorem final_disj (h : ∀ e ∈ es, e.Final) : (disj es).Final := by
  obtain ⟨hf, hc⟩ := folded_joined (b := false) fun e he => (h e he).folded
  rw [disj_eq_joined]
  refine hf.final ?_
  have hd : es.any (·.const? == some !false) = false :=
    List.any_eq_false.mpr fun e he => by simpa using (h e he).const?_ne_true
  rw [hc, hd, if_neg Bool.false_ne_true]
  split <;> simp

theorem folded_loop {b : Bool} {loop : Expr → Expr} {rounds : Expr} (hr : rounds.Folded)
    (hc : rounds.const? = none) (hl : ∀ body, (loop body).Tidy)
    (ho : ∀ body, (loop body).operands = [body]) (h : e.Folded) :
    (looped b loop rounds e).Folded :=
  (folded_looped (hr.normal hc) (fun hn => .intro (hl e) (by simpa [ho] using hn)) h).1

theorem folded_everyItem (r : ValueRef) (item : Slot) (h : e.Folded) :
    (everyItem r item e).Folded :=
  everyItem_eq_looped r item e ▸
    folded_loop (.leaf trivial rfl) rfl (fun _ => trivial) (fun _ => rfl) h

theorem folded_someItem (r : ValueRef) (item : Slot) (h : e.Folded) :
    (someItem r item e).Folded :=
  someItem_eq_looped r item e ▸
    folded_loop (.leaf trivial rfl) rfl (fun _ => trivial) (fun _ => rfl) h

theorem folded_everyKey (r : ValueRef) (key : Slot) (h : e.Folded) :
    (everyKey r key e).Folded :=
  everyKey_eq_looped r key e ▸
    folded_loop (.leaf trivial rfl) rfl (fun _ => trivial) (fun _ => rfl) h

theorem folded_equalTo (r : ValueRef) (literal : Json) : (equalTo r literal).Folded := by
  have h : Realises 0 ⟨[], 0⟩ r.slots r.subject (.equalTo literal) (equalTo r literal) :=
    .equalTo literal fun _ hs => hs
  exact h.folded

theorem normal_hasProperty (n : Node) (name : String) : (n.hasProperty name).Normal := by
  unfold Node.hasProperty
  split <;> exact .leaf trivial rfl

end Expr

namespace Scope

def Final (s : Scope) : Prop := ∀ bucket, ∀ e ∈ s.conditions bucket, e.Final

variable {s : Scope}

theorem final_empty (types : Option TypeSet) : Final { types := types } := by
  intro bucket e he
  cases bucket <;> cases he

theorem Final.declare (h : s.Final) (types : TypeSet) : (s.declare types).Final := by
  intro bucket e he
  refine h bucket e ?_
  cases bucket <;> exact he

theorem Final.push (h : s.Final) (bucket : Bucket) {e : Expr} (he : e.Folded) :
    (s.push bucket e).Final := by
  intro b x hx
  rw [conditions_push] at hx
  split at hx
  · exact h b x hx
  · next hc =>
    split at hx
    · rcases List.mem_append.mp hx with hx | hx
      · exact h b x hx
      · obtain rfl := List.mem_singleton.mp hx
        exact he.final (by simpa [Expr.isTrue_eq] using hc)
    · exact h b x hx

theorem Final.pushAll (h : s.Final) (bucket : Bucket) {es : List Expr} (he : ∀ e ∈ es, e.Folded) :
    (s.pushAll bucket es).Final := by
  induction es generalizing s with
  | nil => exact h
  | cons e es ih => exact ih (h.push bucket (he e (by simp))) fun x hx => he x (.tail _ hx)

theorem final_guard? {r : ValueRef} {check : TypeCheck} {es : List Expr} {e : Expr}
    (h : ∀ e ∈ es, e.Final) (he : guard? r check es = some e) : e.Final := by
  unfold guard? at he
  split at he
  · cases he
  · next hne =>
    cases he
    apply Expr.final_disj
    simp only [List.mem_cons, List.not_mem_nil, or_false, forall_eq_or_imp, forall_eq]
    have test : (Expr.hasType r check).Folded := .leaf trivial rfl
    exact ⟨(Expr.folded_negate test).1.final (by simp [Expr.negate, Expr.const?]),
      Expr.final_conj (by simpa using hne) h⟩

theorem Final.guards (h : s.Final) (o : Options) (r : ValueRef) : ∀ e ∈ guards o r s, e.Final := by
  intro e he
  obtain ⟨found, hf, he⟩ := List.mem_filterMap.mp he
  simp only [List.mem_cons, List.not_mem_nil, or_false] at hf
  rcases hf with rfl | rfl | rfl | rfl
  · exact final_guard? (h .strings) he
  · exact final_guard? (h .numbers) he
  · exact final_guard? (h .arrays) he
  · exact final_guard? (h .objects) he

theorem final_clause {r : ValueRef} {check : TypeCheck} {es : List Expr} (h : ∀ e ∈ es, e.Final) :
    (clause r check es).Final := by
  apply Expr.final_conj (by simp)
  intro e he
  rcases List.mem_cons.mp he with rfl | he
  · exact .leaf trivial rfl
  · exact h e he

theorem Final.clauses (h : s.Final) (o : Options) (r : ValueRef) (declared : TypeSet) :
    ∀ e ∈ clauses o r s declared, e.Final := by
  have given (t : JsonType) {x : Expr} (hx : x.Final) :
      ∀ e ∈ (if declared.contains t then [x] else []), e.Final := by
    intro e he
    split at he
    · exact List.mem_singleton.mp he ▸ hx
    · cases he
  have plain (check : TypeCheck) : (Expr.hasType r check).Final :=
    .leaf trivial rfl
  intro e he
  simp only [Scope.clauses, List.mem_append] at he
  rcases he with ((((he | he) | he) | he) | he) | he
  · exact given _ (final_clause (h .strings)) e he
  · split at he
    · exact List.mem_singleton.mp he ▸ final_clause (h .numbers)
    · exact given _ (final_clause (h .numbers)) e he
  · exact given _ (final_clause (h .arrays)) e he
  · exact given _ (final_clause (h .objects)) e he
  · exact given _ (plain .boolean) e he
  · exact given _ (plain .null) e he

theorem Final.finalize (h : s.Final) (o : Options) (r : ValueRef) : (s.finalize o r).Final := by
  unfold Scope.finalize
  split
  · dsimp only
    split
    · exact .leaf trivial rfl
    · next hne =>
      apply Expr.final_conj
      · simpa using hne
      · intro e he
        rcases List.mem_append.mp he with he | he
        · exact h.guards o r e he
        · exact h .always e he
  · next declared _ =>
    apply Expr.final_conj (by simp)
    intro e he
    rcases List.mem_cons.mp he with rfl | he
    · exact Expr.final_disj (h.clauses o r declared)
    · exact h .always e he

end Scope

namespace Pool

def Final (pool : Pool) : Prop :=
  ∀ f, Declaration.routine f ∈ pool.declarations → f.body.Final

variable {pool : Pool} {d : Declaration}

theorem Final.declare (h : pool.Final) (hd : ∀ f, d = .routine f → f.body.Final) :
    (pool.declare d).Final := by
  intro f hf
  rw [declarations_declare] at hf
  rcases List.mem_append.mp hf with hf | hf
  · exact h f hf
  · exact hd f (List.mem_singleton.mp hf).symm

theorem Final.share {key : Key} (h : pool.Final) (hk : d.key? = some key)
    (hd : ∀ f, d ≠ .routine f) : (pool.share key d).2.Final := by
  rcases pool.share_cases hk with ⟨name, -, hr⟩ | ⟨-, hr⟩ <;> rw [hr]
  · exact h
  · exact h.declare fun f hf => (hd f hf).elim

theorem Final.addPattern [Pattern.Engines] {more : Pool} {unicode : Bool} {source : String}
    {name : Name} (h : pool.Final) (ha : pool.addPattern? unicode source = some (name, more)) :
    more.Final := by
  rcases pool.addPattern?_cases unicode source with ⟨name, -, hr⟩ | ⟨-, ⟨p, -, hr⟩ | ⟨-, hr⟩⟩
  · rw [hr] at ha
    cases ha
    exact h
  · rw [hr] at ha
    cases ha
    exact h.declare nofun
  · rw [hr] at ha
    cases ha

end Pool

/-- A run of the compiler adds no routine but those in final form, and what it returns has a given
property. -/
def Compile.Settles {α : Type} (run : Compile α) (Q : α → Prop) : Prop :=
  ∀ w a u, run w = .ok (a, u) → w.pool.Final → u.pool.Final ∧ Q a

namespace Compile.Settles

variable {α β : Type} {run : Compile α} {f : α → Compile β} {Q : α → Prop} {R : β → Prop}

theorem pure {a : α} (h : Q a) : Settles (Pure.pure a) Q := by
  intro w b u hr hw
  cases hr
  exact ⟨hw, h⟩

theorem fail (e : CompileError) : Settles (throw e) Q := by
  intro w a u hr
  cases hr

theorem bind (h : Settles run Q) (k : ∀ a, Q a → Settles (f a) R) : Settles (run >>= f) R := by
  intro w b v hr hw
  obtain ⟨⟨a, u⟩, ha, hb⟩ := bind_eq_ok.mp (show (run w >>= fun p => f p.1 p.2) = _ from hr)
  obtain ⟨hu, hq⟩ := h w a u ha hw
  exact k a hq u b v hb hu

theorem lift {x : Except CompileError α} (k : ∀ a, Settles (f a) R) :
    Settles (liftM x >>= f) R := by
  cases x with
  | error e =>
    intro w b v hr
    cases hr
  | ok a => exact k a

/-! ### The primitives of the compiler -/

theorem newSlot (kind : SlotKind) : Settles (Compile.newSlot kind) fun _ => True := by
  intro w slot u hr hw
  cases hr
  exact ⟨hw, trivial⟩

theorem addLiteral (json : Json) : Settles (Compile.addLiteral json) fun _ => True := by
  intro w name u hr hw
  cases hr
  exact ⟨hw.share rfl nofun, trivial⟩

theorem includeBuiltin (b : Builtin) : Settles (Compile.includeBuiltin b) fun _ => True := by
  intro w name u hr hw
  cases hr
  exact ⟨hw.share rfl nofun, trivial⟩

theorem addPattern [Pattern.Engines] (unicode : Bool) (source : String) :
    Settles (Compile.addPattern unicode source) fun _ => True := by
  intro w name u hr hw
  unfold Compile.addPattern at hr
  split at hr
  · next name pool hp =>
    cases hr
    exact ⟨hw.addPattern hp, trivial⟩
  · cases hr

theorem addRoutine {r : Routine} (h : r.body.Final) :
    Settles (Compile.addRoutine r) fun _ => True := by
  intro w name u hr hw
  cases hr
  refine ⟨hw.declare (d := .routine r) fun f hf => ?_, trivial⟩
  cases hf
  exact h

end Compile.Settles

def Extend.Settles (extend : Extend) : Prop :=
  ∀ schema r s, s.Final → (extend schema r s).Settles Scope.Final

open Compile.Settles

section Handlers

variable {extend : Extend} (h : Extend.Settles extend) (n : Node) {s : Scope} (hs : s.Final)

include h in
theorem settles_conditions (o : Options) (schema : Json) (r : ValueRef) :
    (conditions extend o schema r).Settles Expr.Final := by
  unfold conditions
  split
  · exact .pure (.leaf trivial rfl)
  · exact .pure (.leaf trivial rfl)
  · exact .bind (h _ r {} (Scope.final_empty none)) fun s hs => .pure (hs.finalize o r)
  · exact .fail _

include hs

/-! ### Assertions -/

theorem settles_type : (n.applyType s).Settles Scope.Final :=
  .lift fun types => .pure (hs.declare types)

theorem settles_enum : (n.applyEnum s).Settles Scope.Final := by
  unfold Node.applyEnum
  refine .lift fun items => ?_
  split
  · exact .bind (addLiteral _) fun table _ => .pure (hs.push _ (.leaf trivial rfl))
  · refine .pure (hs.push _ (Expr.folded_disj fun e he => ?_))
    obtain ⟨item, -, rfl⟩ := List.mem_map.mp he
    exact Expr.folded_equalTo n.ref item

theorem settles_const : (n.applyConst s).Settles Scope.Final :=
  .pure (hs.push _ (Expr.folded_equalTo n.ref n.value))

theorem settles_least (keyword : String) (bucket : Bucket) (measure : Measure) :
    (n.applyLeast keyword bucket measure s).Settles Scope.Final := by
  refine .lift fun limit => .pure ?_
  split
  · exact hs.push _ (.leaf trivial rfl)
  · exact hs

theorem settles_most (keyword : String) (bucket : Bucket) (measure : Measure) :
    (n.applyMost keyword bucket measure s).Settles Scope.Final :=
  .lift fun _ => .pure (hs.push _ (.leaf trivial rfl))

theorem settles_pattern [Pattern.Engines] : (n.applyPattern s).Settles Scope.Final := by
  unfold Node.applyPattern
  split
  · exact .bind (addPattern _ _) fun _ _ => .pure (hs.push _ (.leaf trivial rfl))
  · exact .fail _

theorem settles_bound (keyword : String) (op : CmpOp) :
    (n.applyBound keyword op s).Settles Scope.Final :=
  .lift fun _ => .pure (hs.push _ (.leaf trivial rfl))

theorem settles_multipleOf : (n.applyMultipleOf s).Settles Scope.Final := by
  refine .lift fun number => ?_
  split
  · exact .pure (hs.push _ (.leaf trivial rfl))
  · exact .fail _

theorem settles_custom (c : CustomKeyword) : (n.applyCustom c s).Settles Scope.Final := by
  unfold Node.applyCustom
  split
  · exact .pure (hs.push _ (.leaf trivial rfl))
  · exact .fail _

/-! ### Items -/

theorem settles_uniqueItems : (n.applyUniqueItems s).Settles Scope.Final := by
  unfold Node.applyUniqueItems
  split
  · exact .pure hs
  · split
    · exact .pure (hs.push _ (.leaf trivial rfl))
    · exact .bind (includeBuiltin _) fun _ _ => .pure (hs.push _ (.leaf trivial rfl))
  · exact .fail _

theorem settles_containsBound (keyword : String) (op : CmpOp) :
    (n.applyContainsBound keyword op s).Settles Scope.Final := by
  refine .lift fun limit => .pure ?_
  split
  · exact hs
  · exact hs.push _ (.leaf trivial rfl)

include h

theorem settles_tuple (i : Nat) (schemas : List Json) :
    (n.applyTuple extend i schemas s).Settles Scope.Final := by
  induction schemas generalizing i s with
  | nil => exact .pure hs
  | cons schema rest ih =>
    refine .bind (settles_conditions h _ schema _) fun e he => ih ?_ (i + 1)
    exact hs.push _ (Expr.folded_guarded (.leaf trivial rfl) he.folded)

theorem settles_rest (schema : Json) (start : Nat) :
    (n.applyRest extend schema start s).Settles Scope.Final := by
  unfold Node.applyRest
  split
  · exact .pure (hs.push _ (.leaf trivial rfl))
  · refine .bind (newSlot _) fun item _ => .bind (settles_conditions h _ schema _) fun body hb => ?_
    split
    · exact .pure (hs.push _ (Expr.folded_everyItem n.ref item hb.folded))
    · split
      · exact .pure hs
      · exact .bind (addRoutine hb) fun _ _ =>
          .pure (hs.push _ (.leaf trivial rfl))

theorem settles_items : (n.applyItems extend s).Settles Scope.Final := by
  unfold Node.applyItems
  split
  · exact settles_tuple h n hs 0 _
  · exact settles_rest h n hs _ _

theorem settles_prefixItems : (n.applyPrefixItems extend s).Settles Scope.Final :=
  .lift fun schemas => settles_tuple h n hs 0 schemas

theorem settles_additionalItems : (n.applyAdditionalItems extend s).Settles Scope.Final := by
  unfold Node.applyAdditionalItems
  split
  · exact settles_rest h n hs _ _
  · exact .pure hs

/-- The body of the routine is not tested, but it comes out of a scope and is never true. -/
theorem settles_contains : (n.applyContains extend s).Settles Scope.Final := by
  unfold Node.applyContains
  refine .lift fun least => .lift fun most => .bind (newSlot _) fun item _ => ?_
  refine .bind (settles_conditions h _ n.value _) fun body hb => ?_
  split
  · exact .pure (hs.push _ (Expr.folded_someItem n.ref item hb.folded))
  · split
    · exact .pure hs
    · exact .bind (addRoutine hb) fun _ _ =>
        .pure (hs.push _ (.leaf trivial rfl))

/-! ### Properties -/

omit h in
theorem settles_required : (n.applyRequired s).Settles Scope.Final := by
  refine .lift fun names => .pure (hs.pushAll _ fun e he => ?_)
  obtain ⟨name, -, rfl⟩ := List.mem_map.mp he
  exact Or.inr (Expr.normal_hasProperty n name)

omit h hs in
theorem folded_unless_owned {e : Expr} (name : String) (he : e.Folded) :
    (Expr.disj [.negate (n.hasProperty name), e]).Folded :=
  Expr.folded_guarded (Expr.folded_negate (Or.inr (Expr.normal_hasProperty n name))).1 he

theorem settles_eachProperty (properties : Json.Members) :
    (n.applyEachProperty extend properties s).Settles Scope.Final := by
  induction properties generalizing s with
  | nil => exact .pure hs
  | cons p rest ih =>
    refine .bind (settles_conditions h _ p.2 _) fun e he => ih (hs.push _ ?_)
    split
    · exact he.folded
    · exact folded_unless_owned n p.1 he.folded

theorem settles_properties : (n.applyProperties extend s).Settles Scope.Final :=
  .lift fun properties => settles_eachProperty h n hs properties

omit hs in
theorem settles_patternClauses [Pattern.Engines] (key : Slot) (patterns : Json.Members) :
    (n.patternClauses extend key patterns).Settles fun es => ∀ e ∈ es, e.Folded := by
  induction patterns with
  | nil => exact .pure (by simp)
  | cons p rest ih =>
    refine .bind (addPattern _ _) fun pattern _ => ?_
    refine .bind (settles_conditions h _ p.2 _) fun e he => .bind ih fun others ho => .pure ?_
    simp only [List.mem_cons, forall_eq_or_imp]
    have test : (Expr.matchesPattern (.slot key) pattern).Folded :=
      .leaf trivial rfl
    exact ⟨Expr.folded_guarded (Expr.folded_negate test).1 he.folded, ho⟩

theorem settles_patternProperties [Pattern.Engines] :
    (n.applyPatternProperties extend s).Settles Scope.Final := by
  refine .lift fun patterns => .bind (newSlot _) fun key _ => ?_
  refine .bind (settles_patternClauses h n key patterns) fun clauses hc => .pure ?_
  exact hs.push _ (Expr.folded_everyKey n.ref key (Expr.folded_conj hc))

omit h hs in
theorem settles_patternTests [Pattern.Engines] (key : Slot) (sources : List String) :
    (n.patternTests key sources).Settles fun es => ∀ e ∈ es, e.Folded := by
  induction sources with
  | nil => exact .pure (by simp)
  | cons source rest ih =>
    refine .bind (addPattern _ _) fun pattern _ => .bind ih fun others ho => .pure ?_
    simp only [List.mem_cons, forall_eq_or_imp]
    exact ⟨(.leaf trivial rfl), ho⟩

theorem settles_additionalProperties [Pattern.Engines] :
    (n.applyAdditionalProperties extend s).Settles Scope.Final := by
  refine .bind (newSlot _) fun key _ => ?_
  refine .bind (settles_patternTests n key _) fun matched hm => ?_
  have close {e : Expr} (he : e.Folded) : s.push .objects (.everyKey n.ref key
      (.disj ((n.siblingMembers "properties").map (fun p =>
        Expr.equals (.slot key) (.string p.1)) ++ matched ++ [e]))) |>.Final := by
    refine hs.push _ (Expr.folded_everyKey n.ref key (Expr.folded_disj fun x hx => ?_))
    simp only [List.mem_append, List.mem_map, List.mem_singleton] at hx
    rcases hx with (⟨p, -, rfl⟩ | hx) | rfl
    · exact .leaf trivial rfl
    · exact hm x hx
    · exact he
  split
  · exact .pure (close (Expr.folded_const false))
  · exact .bind (settles_conditions h _ _ _) fun e he => .pure (close he.folded)

theorem settles_propertyNames : (n.applyPropertyNames extend s).Settles Scope.Final :=
  .bind (newSlot _) fun key _ => .bind (settles_conditions h _ n.value _) fun _ he =>
    .pure (hs.push _ (Expr.folded_everyKey n.ref key he.folded))

omit hs in
theorem settles_dependency (keyword : String) (value : Json) :
    (n.dependency extend keyword value).Settles Expr.Folded := by
  unfold Node.dependency
  split
  · refine .lift fun names => .pure (Expr.folded_conj fun e he => ?_)
    obtain ⟨name, -, rfl⟩ := List.mem_map.mp he
    exact Or.inr (Expr.normal_hasProperty n name)
  · exact fun w e u hr hw => (settles_conditions h _ _ _ w e u hr hw).imp_right Expr.Final.folded

theorem settles_dependencies (keyword : String) (check : Json → Except CompileError Unit)
    (triggers : Json.Members) :
    (n.applyDependencies extend keyword check triggers s).Settles Scope.Final := by
  induction triggers generalizing s with
  | nil => exact .pure hs
  | cons p rest ih =>
    refine .lift fun _ => .bind (settles_dependency h n keyword p.2) fun e he => ih ?_
    exact hs.push _ (folded_unless_owned n p.1 he)

theorem settles_dependencyMap (keyword : String) (check : Json → Except CompileError Unit) :
    (n.applyDependencyMap extend keyword check s).Settles Scope.Final :=
  .lift fun triggers => settles_dependencies h n hs keyword check triggers

/-! ### Combinators -/

omit hs in
theorem settles_branches (schemas : List Json) :
    (n.branches extend s schemas).Settles fun es => ∀ e ∈ es, e.Folded := by
  induction schemas with
  | nil => exact .pure (by simp)
  | cons schema rest ih =>
    refine .bind (h schema n.ref s.fork (Scope.final_empty s.types)) fun branch hb => ?_
    refine .bind ih fun others ho => .pure ?_
    simp only [List.mem_cons, forall_eq_or_imp]
    exact ⟨(hb.finalize n.options n.ref).folded, ho⟩

theorem settles_anyOf : (n.applyAnyOf extend s).Settles Scope.Final :=
  .lift fun schemas => .bind (settles_branches h n schemas) fun _ he =>
    .pure (hs.push _ (Expr.folded_disj he))

theorem settles_oneOf : (n.applyOneOf extend s).Settles Scope.Final :=
  .lift fun schemas => .bind (settles_branches h n schemas) fun _ he =>
    .pure (hs.push _ (Expr.folded_one he).1)

theorem settles_merge (schemas : List Json) : (n.merge extend schemas s).Settles Scope.Final := by
  induction schemas generalizing s with
  | nil => exact .pure hs
  | cons schema rest ih => exact .bind (h schema n.ref s hs) fun s hs => ih hs

theorem settles_allOf : (n.applyAllOf extend s).Settles Scope.Final :=
  .lift fun schemas => settles_merge h n hs schemas

theorem settles_not : (n.applyNot extend s).Settles Scope.Final :=
  .bind (settles_conditions h _ n.value _) fun _ he =>
    .pure (hs.push _ (Expr.folded_negate he.folded).1)

/-! ### Whole schemas -/

variable [Pattern.Engines]

theorem settles_apply (k : Keyword) : (k.apply extend n s).Settles Scope.Final := by
  cases k with
  | type => exact settles_type n hs
  | enum => exact settles_enum n hs
  | const => exact settles_const n hs
  | minLength | minItems | minProperties => exact settles_least n hs _ _ _
  | maxLength | maxItems | maxProperties => exact settles_most n hs _ _ _
  | pattern => exact settles_pattern n hs
  | multipleOf => exact settles_multipleOf n hs
  | minimum | maximum | exclusiveMinimum | exclusiveMaximum => exact settles_bound n hs _ _
  | uniqueItems => exact settles_uniqueItems n hs
  | items => exact settles_items h n hs
  | prefixItems => exact settles_prefixItems h n hs
  | additionalItems => exact settles_additionalItems h n hs
  | contains => exact settles_contains h n hs
  | minContains | maxContains => exact settles_containsBound n hs _ _
  | propertyNames => exact settles_propertyNames h n hs
  | required => exact settles_required n hs
  | properties => exact settles_properties h n hs
  | patternProperties => exact settles_patternProperties h n hs
  | additionalProperties => exact settles_additionalProperties h n hs
  | dependencies | dependentRequired | dependentSchemas => exact settles_dependencyMap h n hs _ _
  | anyOf => exact settles_anyOf h n hs
  | oneOf => exact settles_oneOf h n hs
  | allOf => exact settles_allOf h n hs
  | not => exact settles_not h n hs
  | custom c => exact settles_custom n hs c

variable (o : Options) (table : Table) (members : Json.Members) (r : ValueRef)

theorem settles_pass (pass : Pass) (rest : Json.Members) :
    (applyPass extend o table members r pass rest s).Settles Scope.Final := by
  induction rest generalizing s with
  | nil => exact .pure hs
  | cons p rest ih =>
    unfold applyPass
    split
    · exact .bind (settles_apply h _ hs _) fun s hs => ih hs
    · exact ih hs

theorem settles_passes (passes : List Pass) :
    (applyPasses extend o table members r passes s).Settles Scope.Final := by
  induction passes generalizing s with
  | nil => exact .pure hs
  | cons pass rest ih =>
    exact .bind (settles_pass h hs o table members r pass members) fun s hs => ih hs

end Handlers

theorem settles_extendAt [Pattern.Engines] (o : Options) (table : Table) (fuel : Nat) :
    (extendAt o table fuel).Settles := by
  induction fuel with
  | zero => exact fun schema r s hs => .fail _
  | succ fuel ih =>
    intro schema r s hs
    unfold extendAt
    split
    · exact settles_passes ih hs o table _ r table
    · exact .pure hs
    · exact .pure (hs.push _ (.leaf trivial rfl))
    · exact .fail _

/-- What a schema compiles to, the bodies of routines included, is false as a whole or free of
constants; nowhere in it is anything left to fold. -/
theorem compile_normalizes [Pattern.Engines] {schema : Json} {table : Table} {o : Options}
    {p : Predicate} (h : compile schema table o = .ok p) :
    p.root.Final ∧ ∀ f, Declaration.routine f ∈ p.pool → f.body.Final := by
  unfold compile at h
  split at h
  · next root w hr =>
    cases h
    have settled := settles_conditions (settles_extendAt o table _) o schema .input {} root w hr
    exact (settled fun f hf => by cases hf).symm
  · cases h

/-- A truth two schemas down is gone from the body of one routine, a falsehood is all of another. -/
theorem routine_bodies_final :
    let schema : Json := .object
      [("contains", .object [("not", .object [("enum", .array [])])]),
       ("items", .object [("enum", .array [])]),
       ("minContains", .number (.natural 2)),
       ("prefixItems", .array [.bool true])]
    ∃ p, compile schema .draft2020 {} = .ok p ∧
      p.pool = [.routine (.count ⟨.item, 0⟩ (.present (.slot ⟨.item, 0⟩)) 2 none),
        .routine (.everyFrom 1 ⟨.item, 1⟩ (.const false))] ∧
      p.root.Final ∧ ∀ f, Declaration.routine f ∈ p.pool → f.body.Final := by
  intro schema
  have h : compile schema .draft2020 {} = .ok _ := rfl
  exact ⟨_, h, rfl, compile_normalizes h⟩

end SchemaLogic
