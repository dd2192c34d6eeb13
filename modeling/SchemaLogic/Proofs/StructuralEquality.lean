import SchemaLogic.Proofs.Conjunction
import SchemaLogic.Proofs.EqualValues
import SchemaLogic.Proofs.UnknownMembers

/-! # Equality by value

Equality by value is an equivalence, and it is coarser than equality within kinds. The conditions
that a literal is unrolled into decide it for every value, and items without repetition are those no
two of which it identifies. -/
namespace SchemaLogic

/-! ## Schemas with one keyword -/

section Alone

variable {o : Options} {table : Table} {k : Keyword} {value : Json} {b : Bucket}
variable {ms : List (Meaning (Option Json))}

/-- Without declared types and conditions on objects, arrays need not be told from objects. -/
theorem Reading.holds_finalize_bare {s : Reading} (ht : s.types = none)
    (hobjects : s.conditions .objects = []) (v : Json) :
    (s.finalize o).holds (some v) = true ↔ s.Met v := by
  have same : s.finalize o = s.finalize { o with noArrayObject := true } := by
    simp [finalize, guards, guard?, Scope.numberCheck, ht, hobjects]
  rw [same]
  exact holds_finalize (o := { o with noArrayObject := true }) rfl s

variable [Pattern.Engines]

theorem enrichAt_alone (hs : table.Standard) (hk : table.Knows k.name k) {fuel : Nat}
    (h : ∀ s, k.enrich (enrichAt o table fuel) ⟨o, table, [(k.name, value)], value, .input⟩ s =
      .ok (s.pushAll b ms)) :
    ∃ all, enrichAt o table (fuel + 1) (.object [(k.name, value)]) {} =
      .ok (({} : Reading).pushAll b all) ∧ ∀ m, m ∈ all ↔ m ∈ ms := by
  have run (ks : List Keyword) (hks : ∀ x ∈ ks, x = k) (s : Reading) :
      ks.foldlM (fun s x => x.enrich (enrichAt o table fuel)
        ⟨o, table, [(k.name, value)], value, .input⟩ s) s =
        .ok (s.pushAll b (ks.flatMap fun _ => ms)) := by
    induction ks generalizing s with
    | nil => rfl
    | cons x ks ih =>
      obtain rfl := hks x (.head _)
      rw [List.foldlM_cons, h, List.flatMap_cons]
      refine (ih (fun k hk => hks k (.tail _ hk)) _).trans (congrArg Except.ok ?_)
      rw [Reading.pushAll, Reading.pushAll, Reading.pushAll, List.foldl_append]
  have named : ∀ x ∈ table.filterMap (·.get? k.name), x = k := by
    intro x hx
    obtain ⟨pass, hp, hget⟩ := List.mem_filterMap.mp hx
    exact hs.eq_of_knows ⟨pass, hp, hget⟩ (hs.knows_iff.mp hk).1
  obtain ⟨pass, hp, hget⟩ := hk
  refine ⟨_, (enrichAt_single fuel k.name value {}).trans (run _ named {}), fun m => ?_⟩
  rw [List.mem_flatMap]
  constructor
  · rintro ⟨-, -, hm⟩
    exact hm
  · exact fun hm => ⟨k, List.mem_filterMap.mpr ⟨pass, hp, hget⟩, hm⟩

theorem compile_alone (hs : table.Standard) (hk : table.Knows k.name k)
    (h : ∀ fuel s, k.enrich (enrichAt o table fuel)
      ⟨o, table, [(k.name, value)], value, .input⟩ s = .ok (s.pushAll b ms))
    (hb : b ≠ .objects) :
    ∃ p, compile (.object [(k.name, value)]) table o = .ok p ∧
      (∀ v, p.isValid v = true ↔ (b.covers v = true → ∀ m ∈ ms, m.holds (some v) = true)) ∧
      (p.evaluate none = true ↔
        (b = .always → ∀ m ∈ ms, m.holds none = true) ∧ ∃ m ∈ ms, m.folds = false) := by
  obtain ⟨all, hread, hall⟩ :=
    enrichAt_alone hs hk (h (Json.object [(k.name, value)]).depth)
  have hm := meaning_of_enrichAt hread
  obtain ⟨p, hp⟩ := compile_of_meaning hm
  obtain ⟨m', hm', hc⟩ := compile_ok hp
  obtain rfl := Except.ok.inj (hm.symm.trans hm')
  refine ⟨p, hp, fun v => ?_, ?_⟩
  · have bare : (({} : Reading).pushAll b all).conditions .objects = [] := by
      rw [Reading.conditions_pushAll, if_neg hb.symm]
      rfl
    rw [isValid_eq_holds hp hm,
      Reading.holds_finalize_bare (Reading.types_pushAll _ _ _) bare, Reading.met_pushAll,
      and_iff_right (Reading.met_empty v)]
    simp only [hall]
  · have empty : ({} : Reading).Open ∧ ({} : Reading).Void :=
      ⟨additive_open.empty, additive_void.empty⟩
    rw [hc.evaluate, Reading.holds_none_finalize, Reading.open_pushAll, Reading.void_pushAll,
      and_iff_right empty.1, and_iff_right empty.2]
    simp [hall]

end Alone

/-! ## Comparing with a literal -/

/-- The conditions for a literal hold of the values equal to it, wherever they are evaluated. -/
theorem Expr.eval_equalTo (r : ValueRef) (literal : Json) (input : Instance) (pool : Declarations)
    (call : Routines) (row : Slots) :
    ((Expr.equalTo r literal).eval input pool call row).1 =
      (r.resolve input row).subject.any literal.equal := by
  have realised : Realises 0 ⟨[], 0⟩ r.slots r.subject (.equalTo literal)
      (Expr.equalTo r literal) := Realises.equalTo literal fun _ hs => hs
  have agrees : Agrees r.slots row fun i => row.getD i .missing := fun _ _ => rfl
  have calls : Expr.CallsTrack 0 ⟨[], 0⟩ call (pool.judge input) := fun n f _ hf => by cases hf
  have tracks := Expr.eval_tracks input pool calls realised.placed row _ (Nat.zero_le _) agrees
  rw [tracks.1]
  refine (realised.means pool List.nil_prefix input _).trans ?_
  rw [Meaning.holds_equalTo, ValueRef.subject, ValueRef.resolve_eq_value]

namespace Json

variable {u v : Json}

theorem equal_comm (hu : u.Sorted) (hv : v.Sorted) : u.equal v = v.equal u := by
  rw [Bool.eq_iff_iff, equal_iff_content hu hv, equal_iff_content hv hu, eq_comm]

end Json

/-- The test that a literal is unrolled into is equality by value: of a value, of a key as a string,
and of nothing that is missing. The keyword for it makes it under all options. -/
theorem equalTo_decides_equal [Pattern.Engines] {literal : Json} (hl : literal.Sorted) :
    (∀ (r : ValueRef) (input : Instance) (pool : Declarations) (call : Routines) (row : Slots),
      (∀ v, r.resolve input row = .value v → v.Sorted →
        ((Expr.equalTo r literal).eval input pool call row).1 = v.equal literal) ∧
      (∀ k, r.resolve input row = .key k →
        ((Expr.equalTo r literal).eval input pool call row).1 =
          (Json.string k.text).equal literal) ∧
      (r.resolve input row = .missing →
        ((Expr.equalTo r literal).eval input pool call row).1 = false)) ∧
    ∀ (o : Options) (table : Table), table.Standard → table.Knows "const" .const →
      ∃ p, compile (.object [("const", literal)]) table o = .ok p ∧
        ∀ json : Option Json, (∀ v ∈ json, v.Sorted) →
          p.evaluate json = json.any (·.equal literal) := by
  refine ⟨fun r input pool call row => ⟨fun v hr hv => ?_, fun k hr => ?_, fun hr => ?_⟩,
    fun o table hs hk => ?_⟩
  · rw [Expr.eval_equalTo, hr]
    exact Json.equal_comm hl hv
  · rw [Expr.eval_equalTo, hr]
    exact Json.equal_comm hl (by simp [Json.Sorted])
  · rw [Expr.eval_equalTo, hr]
    rfl
  · have pushes (fuel : Nat) (s : Reading) : Keyword.const.enrich (enrichAt o table fuel)
        ⟨o, table, [("const", literal)], literal, .input⟩ s =
          .ok (s.pushAll .always [.equalTo literal]) := rfl
    obtain ⟨p, hp, hvalue, hnone⟩ := compile_alone (k := .const) hs hk pushes (by simp)
    refine ⟨p, hp, fun json hjson => ?_⟩
    cases json with
    | none =>
      rw [Bool.eq_iff_iff, hnone]
      simp
    | some v =>
      have hequal := hvalue v
      rw [List.forall_mem_singleton, Meaning.holds_equalTo, Option.any_some,
        Json.equal_comm hl (hjson v rfl)] at hequal
      exact Bool.eq_iff_iff.mpr (hequal.trans (forall_prop_of_true rfl))

/-- An object whose names are indices is not equal to the array with its values, although arrays
have members under their indices too. The same object with a real in the place of an integer is. -/
theorem equalTo_decides_indices :
    let literal : Json := .object [("0", .null), ("1", .array [.number (.natural 1)])]
    let items : Json := .array [.null, .array [.number (.natural 1)]]
    let reals : Json := .object [("0", .null),
      ("1", .array [.number (.real ⟨false, 4503599627370496, -52, by decide⟩)])]
    let verdict (v : Json) : Bool := ((Expr.equalTo (.slot ⟨.item, 0⟩) literal).eval .missing []
      (Routine.below .missing [] 0) #[.value v]).1
    verdict items = false ∧ verdict reals = true ∧
      ∃ p, compile (.object [("const", literal)]) .draft6 {} = .ok p ∧
        p.isValid reals = true ∧ p.evaluate none = false := by
  intro literal items reals verdict
  have hl : literal.Sorted := by
    simp only [literal, Json.Sorted, Json.SortedItems, Json.SortedMembers]
    decide
  have hitems : items.Sorted := by
    simp only [items, Json.Sorted, Json.SortedItems]
    decide
  have hreals : reals.Sorted := by
    simp only [reals, Json.Sorted, Json.SortedItems, Json.SortedMembers]
    decide
  obtain ⟨hverdict, hcompile⟩ := equalTo_decides_equal hl
  have hequal : reals.equal literal = true := by decide
  have judged (v : Json) (hv : v.Sorted) : verdict v = v.equal literal :=
    (hverdict (.slot ⟨.item, 0⟩) .missing [] (Routine.below .missing [] 0) #[.value v]).1 v rfl hv
  have hs : Table.Standard .draft6 := standard_of_draft (.inl rfl)
  obtain ⟨p, hp, hjson⟩ := hcompile {} .draft6 hs (hs.knows rfl rfl)
  refine ⟨(judged items hitems).trans rfl, (judged reals hreals).trans hequal, p, hp, ?_, ?_⟩
  · rw [Predicate.isValid, hjson (some reals) (by simpa using hreals), Option.any_some, hequal]
  · exact hjson none (by simp)

/-! ## An equivalence -/

theorem Number.value_of_same {a b : Number} (h : a.same b = true) : a.value = b.value := by
  cases a with
  | natural n =>
    cases b with
    | natural m => rw [eq_of_beq (show (n == m) = true from h)]
    | _ => cases h
  | negative n =>
    cases b with
    | negative m => rw [eq_of_beq (show (n == m) = true from h)]
    | _ => cases h
  | real a =>
    cases b with
    | real b => exact equals_iff.mp h
    | _ => cases h

theorem forall₂_imp_of_mem {α β : Type} {as : List α} {bs : List β} {R S : α → β → Prop}
    (h : ∀ a ∈ as, ∀ b, R a b → S a b) (hr : List.Forall₂ R as bs) : List.Forall₂ S as bs := by
  obtain ⟨hlen, hzip⟩ := List.forall₂_iff_zip.mp hr
  exact List.forall₂_iff_zip.mpr
    ⟨hlen, fun hab => h _ (List.of_mem_zip hab).1 _ (hzip hab)⟩

namespace Json

variable {u v : Json}

theorem content_of_same (h : u.same v = true) : u.content = v.content := by
  induction u using Json.induction generalizing v with
  | null => cases v <;> cases h; rfl
  | bool b =>
    cases v with
    | bool c => rw [eq_of_beq (show (b == c) = true from h)]
    | _ => cases h
  | string s =>
    cases v with
    | string t => rw [eq_of_beq (show (s == t) = true from h)]
    | _ => cases h
  | number n =>
    cases v with
    | number m => rw [content, content, Number.value_of_same h]
    | _ => cases h
  | array items ih =>
    cases v with
    | array others =>
      rw [content_array, content_array, Content.array.injEq, map_eq_map_iff_forall₂]
      exact forall₂_imp_of_mem (fun a ha b => ih a ha) (sameItems_iff.mp h)
    | _ => cases h
  | object members ih =>
    cases v with
    | object others =>
      rw [content_object, content_object, Content.object.injEq, map_eq_map_iff_forall₂]
      refine forall₂_imp_of_mem (fun a ha b hab => ?_) (sameMembers_iff.mp h)
      exact Prod.mk.injEq _ _ _ _ ▸ ⟨hab.1, ih a ha hab.2⟩
    | _ => cases h

theorem isUnique_iff_positions {items : List Json} (h : (Json.array items).Sorted) :
    isUnique equal items = true ↔ ∀ i j (hi : i < items.length) (hj : j < items.length), i ≠ j →
      items[i].equal items[j] = false := by
  have inOrder (i : Nat) (hi : i < items.length) : items[i].Sorted :=
    sorted_array.mp h _ (List.getElem_mem hi)
  rw [isUnique_iff, List.pairwise_iff_getElem]
  constructor
  · intro hpairs i j hi hj hij
    rcases Nat.lt_or_gt_of_ne hij with hlt | hlt
    · exact hpairs i j hi hj hlt
    · rw [equal_comm (inOrder i hi) (inOrder j hj)]
      exact hpairs j i hj hi hlt
  · intro hall i j hi hj hlt
    exact hall i j hi hj (Nat.ne_of_lt hlt)

theorem isUnique_perm {items others : List Json} (h : (Json.array items).Sorted)
    (hp : others.Perm items) : isUnique equal others = isUnique equal items := by
  have hothers : (Json.array others).Sorted :=
    sorted_array.mpr fun v hv => sorted_array.mp h v (hp.mem_iff.mp hv)
  rw [Bool.eq_iff_iff, isUnique_iff_nodup h, isUnique_iff_nodup hothers, (hp.map content).nodup_iff]

end Json

/-- Equality by value is an equivalence that equality within kinds refines and that compares numbers
by what they denote. So items are without repetition if no two positions hold equal values, in
whatever order they stand. -/
theorem equal_equivalence [Pattern.Engines] :
    Equivalence (fun u v : Subtype Json.Sorted => u.1.equal v.1 = true) ∧
    (∀ u v : Json, u.Sorted → v.Sorted → u.same v = true → u.equal v = true) ∧
    (∀ a b : Number, (Json.number a).equal (.number b) = true ↔ a.value = b.value) ∧
    ∀ (o : Options) (table : Table), o.fastAssertions = false → table.Standard →
      table.Knows "uniqueItems" .uniqueItems →
      ∃ p, compile (.object [("uniqueItems", .bool true)]) table o = .ok p ∧
        ∀ items, (Json.array items).Sorted →
          (p.isValid (.array items) = true ↔ ∀ i j (hi : i < items.length)
            (hj : j < items.length), i ≠ j → items[i].equal items[j] = false) ∧
          ∀ others, others.Perm items → p.isValid (.array others) = p.isValid (.array items) := by
  have key (u v : Subtype Json.Sorted) : u.1.equal v.1 = true ↔ u.1.content = v.1.content :=
    Json.equal_iff_content u.2 v.2
  refine ⟨⟨fun u => (key u u).mpr rfl, fun {u v} h => (key v u).mpr ((key u v).mp h).symm,
    fun {u v w} h k => (key u w).mpr (((key u v).mp h).trans ((key v w).mp k))⟩, ?_, ?_, ?_⟩
  · intro u v hu hv h
    exact (Json.equal_iff_content hu hv).mpr (Json.content_of_same h)
  · intro a b
    exact Number.equals_iff
  · intro o table ho hs hk
    have pushes (fuel : Nat) (s : Reading) : Keyword.uniqueItems.enrich (enrichAt o table fuel)
        ⟨o, table, [("uniqueItems", .bool true)], .bool true, .input⟩ s =
          .ok (s.pushAll .arrays [.look fun i => i.items?.any
            (Json.isUnique (if o.fastAssertions then Json.same else Json.equal))]) := rfl
    obtain ⟨p, hp, hvalue, -⟩ := compile_alone (k := .uniqueItems) hs hk pushes (by simp)
    have verdict (items : List Json) :
        p.isValid (.array items) = Json.isUnique Json.equal items := by
      rw [Bool.eq_iff_iff, hvalue, ho]
      simp [Bucket.covers, Instance.items?]
    refine ⟨p, hp, fun items hitems => ⟨?_, fun others hperm => ?_⟩⟩
    · rw [verdict, Json.isUnique_iff_positions hitems]
    · rw [verdict, verdict, Json.isUnique_perm hitems hperm]

/-- An integer and the same number as a real, in one object each, are a repetition in any order. -/
theorem equal_equivalence_reals :
    let integer : Json := .object [("x", .number (.natural 1))]
    let real : Json := .object [("x", .number (.real ⟨false, 4503599627370496, -52, by decide⟩))]
    ∃ p, compile (.object [("uniqueItems", .bool true)]) .draft2020 {} = .ok p ∧
      p.isValid (.array [integer, .null, real]) = false ∧
      p.isValid (.array [real, integer, .null]) = p.isValid (.array [integer, .null, real]) := by
  intro integer real
  have hs : Table.Standard .draft2020 := standard_of_draft (.inr rfl)
  obtain ⟨p, hp, hitems⟩ := equal_equivalence.2.2.2 {} .draft2020 rfl hs (hs.knows rfl rfl)
  have inOrder : (Json.array [integer, .null, real]).Sorted := by
    simp only [integer, real, Json.Sorted, Json.SortedItems, Json.SortedMembers]
    decide
  have hequal : integer.equal real = true := by decide
  obtain ⟨hunique, hperm⟩ := hitems _ inOrder
  refine ⟨p, hp, ?_, hperm _ ?_⟩
  · rw [Bool.eq_false_iff, Ne, hunique]
    intro hall
    have apart : integer.equal real = false := hall 0 2 (by decide) (by decide) (by decide)
    rw [hequal] at apart
    cases apart
  · change ([real] ++ [integer, .null]).Perm ([integer, .null] ++ [real])
    exact List.perm_append_comm

end SchemaLogic
