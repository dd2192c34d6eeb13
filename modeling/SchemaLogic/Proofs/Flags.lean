import SchemaLogic.Proofs.Parts
import SchemaLogic.Proofs.PairedSchemas

/-! # Flags act on their own subjects

The flags about finite numbers and about own properties change no verdict. The width of strings
matters only where a character takes two code units, and the test for plain objects only where there
is an array. -/
namespace SchemaLogic

/-! ## Narrow texts -/

namespace Text

def isNarrow (s : String) : Bool := s.toList.all fun c => c.toNat ≤ 0xFFFF

theorem unitCount_of_isNarrow {s : String} (h : isNarrow s = true) : unitCount s = s.length := by
  have count (cs : List Char) (hcs : cs.all (fun c => c.toNat ≤ 0xFFFF) = true) :
      (cs.flatMap unitsOf).length = cs.length := by
    induction cs with
    | nil => rfl
    | cons c cs ih =>
      obtain ⟨hc, hcs⟩ := Bool.and_eq_true_iff.mp hcs
      rw [List.flatMap_cons, List.length_append, ih hcs, unitsOf, if_pos (of_decide_eq_true hc),
        List.length_singleton, List.length_cons, Nat.add_comm]
  rw [unitCount, units, count s.toList h, String.length_toList]

theorem isNarrow_index (i : Nat) : isNarrow (toString i) = true := by
  rw [isNarrow, List.all_eq_true]
  intro c hc
  change c ∈ (Nat.repr i).toList at hc
  rw [Nat.repr, String.toList_ofList] at hc
  have digit : c.isDigit = true := Nat.isDigit_of_mem_toDigits (by decide) (by decide) hc
  simp only [Char.isDigit, Bool.and_eq_true, decide_eq_true_eq] at digit
  have hle : c.toNat ≤ 57 := digit.2
  rw [decide_eq_true_eq]
  omega

end Text

def Json.isNarrow : Json → Bool
  | .string s => Text.isNarrow s
  | .object members => members.all fun member => Text.isNarrow member.1
  | _ => true

/-! ## Values on which flags have no say -/

/-- A value is narrow where two records of options measure strings differently, and free of arrays
where they differ on what an object is. -/
structure Fits (o o' : Options) (v : Json) : Prop where
  narrow : o.strictStringWidth ≠ o'.strictStringWidth → v.throughout Json.isNarrow = true
  plain : o.noArrayObject ≠ o'.noArrayObject → v.throughout (!·.isArray) = true

section Fits

variable {o o' : Options}

theorem hereditary_fits (o o' : Options) : Hereditary (Fits o o') where
  item h item hi := by
    constructor
    · intro hne
      exact (Json.throughout_array.mp (h.narrow hne)).2 item hi
    · intro hne
      exact (Json.throughout_array.mp (h.plain hne)).2 item hi
  member h member hm := by
    constructor
    · intro hne
      exact (Json.throughout_object.mp (h.narrow hne)).2 member hm
    · intro hne
      exact (Json.throughout_object.mp (h.plain hne)).2 member hm
  key := by
    intro v entries h he k hk
    constructor
    · intro hne
      cases v with
      | array items =>
        cases he
        obtain ⟨i, -, rfl⟩ := List.mem_map.mp hk
        exact Text.isNarrow_index i
      | object members =>
        cases he
        obtain ⟨member, hm, rfl⟩ := List.mem_map.mp hk
        have names := (Json.throughout_object.mp (h.narrow hne)).1
        exact List.all_eq_true.mp names member hm
      | _ => cases he
    · intro _
      rfl

theorem Fits.separates {v : Json} (h : Fits o o' v) (hne : o.noArrayObject ≠ o'.noArrayObject)
    (options : Options) : options.separates v = true := by
  have plain := Json.throughout_self (h.plain hne)
  rw [Options.separates, plain, Bool.or_true]

theorem Fits.types {v : Json} (h : Fits o o' v) (t : JsonType) :
    (Instance.value v).hasType (o.check t) = (Instance.value v).hasType (o'.check t) := by
  cases t with
  | number =>
    exact (Instance.hasType_numberCheck o v).trans (Instance.hasType_numberCheck o' v).symm
  | object =>
    by_cases hne : o.noArrayObject = o'.noArrayObject
    · rw [Options.check, Options.check, Scope.objectCheck, Scope.objectCheck, hne]
    · have left := Instance.hasType_objectCheck (h.separates hne o)
      have right := Instance.hasType_objectCheck (h.separates hne o')
      exact left.trans right.symm
  | _ => rfl

theorem Fits.measure {v : Json} (h : Fits o o' v) (n : Node) :
    (Instance.value v).measure? (n.given o).stringMeasure =
      (Instance.value v).measure? (n.given o').stringMeasure := by
  by_cases hne : o.strictStringWidth = o'.strictStringWidth
  · have same : (n.given o).options.strictStringWidth =
      (n.given o').options.strictStringWidth := hne
    rw [Node.stringMeasure, Node.stringMeasure, same]
  · have widths (options : Options) :
        (Instance.value v).measure? (n.given options).stringMeasure =
          (Instance.value v).text?.map String.length := by
      rw [Node.stringMeasure]
      split
      · rfl
      · cases v with
        | string s =>
          have narrow : Text.isNarrow s = true := h.narrow hne
          exact congrArg some (Text.unitCount_of_isNarrow narrow)
        | _ => rfl
    rw [widths, widths]

def Options.pairing (o o' : Options) : Pairing := .diagonal o o' True (Fits o o')

theorem twin_width (n : Node) (op : CmpOp) (limit : Nat) :
    Twin True ((o.pairing o').Asked .strings) (.size (n.given o).stringMeasure op limit)
      (.size (n.given o').stringMeasure op limit) := by
  refine .test fun i j hij => ?_
  refine congrArg (Option.any fun size => op.holds (Ord.compare size limit)) ?_
  cases hij.1 with
  | value h =>
    obtain ⟨rfl, hv⟩ := h
    exact hv.measure n
  | missing _ =>
    have absent (measure : Measure) : Instance.missing.measure? measure = none := by
      cases measure <;> rfl
    exact (absent _).trans (absent _).symm

variable [Pattern.Engines]

/-- Apart from the width of strings, what such a keyword asks for depends on three flags. -/
theorem demands_given (accurate : o.accurateMultipleOf = o'.accurateMultipleOf)
    (unicode : o.unicodeAwareRegex = o'.unicodeAwareRegex)
    (fast : o.fastAssertions = o'.fastAssertions) {k : Keyword} (hk : k.asserts = true)
    (hmin : k ≠ .minLength) (hmax : k ≠ .maxLength) (f g : Interpret) (n : Node) :
    k.demands f (n.given o) = k.demands g (n.given o') := by
  cases k with
  | minLength => exact absurd rfl hmin
  | maxLength => exact absurd rfl hmax
  | enum =>
    have same : (n.given o).options.fastAssertions = (n.given o').options.fastAssertions := fast
    change (n.given o).enumDemands = (n.given o').enumDemands
    rw [Node.enumDemands, Node.enumDemands, same]
    rfl
  | uniqueItems =>
    have same : (n.given o).options.fastAssertions = (n.given o').options.fastAssertions := fast
    change (n.given o).uniqueDemands = (n.given o').uniqueDemands
    rw [Node.uniqueDemands, Node.uniqueDemands, same]
    rfl
  | pattern =>
    have same : (n.given o).options.unicodeAwareRegex =
      (n.given o').options.unicodeAwareRegex := unicode
    change (n.given o).patternDemands = (n.given o').patternDemands
    rw [Node.patternDemands, Node.patternDemands, same]
    rfl
  | multipleOf =>
    have same : (n.given o).options.accurateMultipleOf =
      (n.given o').options.accurateMultipleOf := accurate
    change (n.given o).divisorDemands = (n.given o').divisorDemands
    rw [Node.divisorDemands, Node.divisorDemands, same]
    rfl
  | const | minimum | maximum | exclusiveMinimum | exclusiveMaximum | minItems | maxItems
  | minContains | maxContains | minProperties | maxProperties | custom _ => rfl
  | _ => cases hk

theorem asserts_fits (accurate : o.accurateMultipleOf = o'.accurateMultipleOf)
    (unicode : o.unicodeAwareRegex = o'.unicodeAwareRegex)
    (fast : o.fastAssertions = o'.fastAssertions) {k : Keyword} (hk : k.asserts = true)
    (n : Node) : (o.pairing o').Asserts k n := by
  intro f g
  by_cases hmin : k = .minLength
  · subst hmin
    refine Agree.share (expectLimit "minLength" n.value) fun limit _ => .ok ?_
    split
    · exact .singleton (twin_width n .ge limit)
    · exact .nil
  · by_cases hmax : k = .maxLength
    · subst hmax
      refine Agree.share (expectLimit "maxLength" n.value) fun limit _ => .ok ?_
      exact .singleton (twin_width n .le limit)
    · exact agree_same (demands_given accurate unicode fast hk hmin hmax f g n)

end Fits

/-- Under two records of options that agree on `multipleOf`, on patterns and on fast assertions, a
schema compiles or fails alike, and a value or a missing one is judged alike: in any case if the
records differ on finite numbers and own properties, for narrow values if they differ on the width
of strings, and for values without arrays if they differ on plain objects. -/
theorem flags_act_on_their_subjects [Pattern.Engines] (table : Table) (schema : Json)
    (o o' : Options) (accurate : o.accurateMultipleOf = o'.accurateMultipleOf)
    (unicode : o.unicodeAwareRegex = o'.unicodeAwareRegex)
    (fast : o.fastAssertions = o'.fastAssertions) :
    (∀ e, compile schema table o = .error e ↔ compile schema table o' = .error e) ∧
    ∀ p q, compile schema table o = .ok p → compile schema table o' = .ok q →
      ∀ json : Option Json,
        (o.strictStringWidth ≠ o'.strictStringWidth →
          ∀ v, json = some v → v.throughout Json.isNarrow = true) →
        (o.noArrayObject ≠ o'.noArrayObject →
          ∀ v, json = some v → v.throughout (!·.isArray) = true) →
        p.evaluate json = q.evaluate json := by
  have lawful : (o.pairing o').Lawful :=
    lawful_diagonal unicode (fun v hv => hv.types) (hereditary_fits o o')
  obtain ⟨errors, verdicts⟩ := compile_twins lawful table schema (.inl trivial)
    fun members _ member _ pass _ k _ hk => asserts_fits accurate unicode fast hk _
  refine ⟨errors, fun p q hp hq json narrow plain => ?_⟩
  apply verdicts p q hp hq
  cases json with
  | none => exact .missing trivial
  | some v => exact .value ⟨rfl, fun hne => narrow hne v rfl, fun hne => plain hne v rfl⟩

/-- All four flags turned on at once: a narrow object is judged alike, and so is a missing value. A
character of two code units, or an array, is noticed. -/
theorem strict_flags_unnoticed :
    let schema : Json := .object [
      ("additionalProperties", .object [("maxLength", .number (.natural 1))]),
      ("properties", .object [("a", .object [("minimum", .number (.natural 2))])]),
      ("type", .string "object")]
    let o : Options :=
      { Options.strict with accurateMultipleOf := false, unicodeAwareRegex := false }
    let narrow : Json := .object [("a", .number (.natural 1)), ("b", .string "é")]
    let wide : Json := .object [("b", .string "😀")]
    narrow.throughout Json.isNarrow = true ∧ narrow.throughout (!·.isArray) = true ∧
      ∃ p q, compile schema .draft2020 {} = .ok p ∧ compile schema .draft2020 o = .ok q ∧
        p.evaluate (some narrow) = q.evaluate (some narrow) ∧ p.evaluate none = q.evaluate none ∧
        p.evaluate (some wide) = false ∧ q.evaluate (some wide) = true ∧
        p.evaluate (some (.array [])) = true ∧ q.evaluate (some (.array [])) = false := by
  intro schema o narrow wide
  have hn : narrow.throughout Json.isNarrow = true := by decide
  have hp : narrow.throughout (!·.isArray) = true := by decide
  have h : compile schema .draft2020 {} = .ok _ := rfl
  have h' : compile schema .draft2020 o = .ok _ := rfl
  have verdicts := (flags_act_on_their_subjects .draft2020 schema {} o rfl rfl rfl).2 _ _ h h'
  have value := verdicts (some narrow) (fun _ v hv => Option.some.inj hv ▸ hn)
    (fun _ v hv => Option.some.inj hv ▸ hp)
  have missing := verdicts none (fun _ v hv => nomatch hv) (fun _ v hv => nomatch hv)
  exact ⟨hn, hp, _, _, h, h', value, missing, by decide, by decide, by decide, by decide⟩

end SchemaLogic
