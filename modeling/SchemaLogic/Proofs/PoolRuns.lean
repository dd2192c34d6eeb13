import Mathlib.Data.List.Induction
import SchemaLogic.Pattern.Engine
import SchemaLogic.Proofs.Placement
import SchemaLogic.Proofs.JsonText
import SchemaLogic.Proofs.PoolTables

/-! # Runs of the pool of declarations

Calls only append to the pool and keep its tables in step, so a name stands for one declaration from
the call that hands it out on. That literals are found by their texts makes no difference, as
different values have different texts. -/
namespace SchemaLogic.Pool

inductive Request where
  | literal (json : Json)
  | pattern (source : String)
  | routine (r : Routine)
  | builtin (b : Builtin)

/-- What a call looks for before it adds anything. -/
def Request.key? : Request → Option Key
  | .literal json => some (.literal json.text)
  | .pattern source => some (.pattern source)
  | .routine _ => none
  | .builtin b => some (.builtin b)

theorem Request.key?_inj {request : Request} {key : Key} (h : request.key? = some key)
    (other : Request) (h' : other.key? = some key) : request = other := by
  cases request <;> cases other <;> cases h <;> simp only [key?, Option.some.injEq] at h'
  case literal.literal json other => rw [Json.text_injective (Key.literal.inj h')]
  all_goals cases h'
  all_goals rfl

section Runs

variable [Pattern.Engines]

/-- The declaration that is asked for; there is none for a pattern that is refused. -/
def Request.declares (unicode : Bool) : Request → Option Declaration
  | .literal json => some (.literal json)
  | .pattern source => (Pattern.compile? unicode source).map .pattern
  | .routine r => some (.routine r)
  | .builtin b => some (.builtin b)

def serve (unicode : Bool) (pool : Pool) : Request → Option Name × Pool
  | .literal json => ((pool.addLiteral json).1, (pool.addLiteral json).2)
  | .pattern source =>
    match pool.addPattern? unicode source with
    | some (name, extended) => (some name, extended)
    | none => (none, pool)
  | .routine r => ((pool.addRoutine r).1, (pool.addRoutine r).2)
  | .builtin b => ((pool.includeBuiltin b).1, (pool.includeBuiltin b).2)

def extend (unicode : Bool) (pool : Pool) (requests : List Request) : Pool :=
  requests.foldl (fun pool request => (pool.serve unicode request).2) pool

def after (unicode : Bool) (requests : List Request) : Pool := extend unicode {} requests

def answer (unicode : Bool) (earlier : List Request) (request : Request) : Option Name :=
  ((after unicode earlier).serve unicode request).1

def names (unicode : Bool) (pool : Pool) : List Request → List Name
  | [] => []
  | request :: later =>
    (pool.serve unicode request).1.toList ++ names unicode (pool.serve unicode request).2 later

variable {unicode : Bool} {pool : Pool} {request other : Request} {d : Declaration} {name : Name}
variable {key : Key}

/-! ## One call -/

theorem Request.key?_declared (h : request.declares unicode = some d) : d.key? = request.key? := by
  cases request with
  | pattern source =>
    obtain ⟨p, hp, rfl⟩ := Option.map_eq_some_iff.mp h
    rw [Declaration.key?, Pattern.source_compile? hp, key?]
  | _ =>
    cases h
    rfl

theorem Request.declares_inj (h : request.declares unicode = some d)
    (h' : other.declares unicode = some d) : request = other := by
  have hk := key?_declared h
  have hk' := key?_declared h'
  cases hd : d.key? with
  | some key => exact key?_inj (hk ▸ hd) _ (hk' ▸ hd)
  | none =>
    rw [hd] at hk hk'
    cases request <;> cases hk
    cases other <;> cases hk'
    cases h
    cases h'
    rfl

theorem Request.declares_eq_none_iff : request.declares unicode = none ↔
    ∃ source, request = .pattern source ∧ Pattern.compile? unicode source = none := by
  cases request <;> simp [declares]

/-- A call returns what its table has under its key, or appends its declaration, or is refused. -/
theorem serve_cases (unicode : Bool) (pool : Pool) (request : Request) :
    (∃ key name, request.key? = some key ∧ pool.find? key = some name ∧
        pool.serve unicode request = (some name, pool)) ∨
      (∀ key, request.key? = some key → pool.find? key = none) ∧
        ((∃ d, request.declares unicode = some d ∧
            pool.serve unicode request = (some pool.declarations.length, pool.declare d)) ∨
          request.declares unicode = none ∧ pool.serve unicode request = (none, pool)) := by
  have fresh {key : Key} (hf : pool.find? key = none) :
      ∀ own, some key = some own → pool.find? own = none := by
    rintro _ ⟨⟩
    exact hf
  cases request with
  | literal json =>
    rcases pool.share_cases (d := .literal json) rfl with ⟨name, hf, hs⟩ | ⟨hf, hs⟩
    · exact .inl ⟨_, name, rfl, hf, by rw [serve, addLiteral, hs]⟩
    · exact .inr ⟨fresh hf, .inl ⟨_, rfl, by rw [serve, addLiteral, hs]⟩⟩
  | pattern source =>
    rcases pool.addPattern?_cases unicode source with
      ⟨name, hf, hs⟩ | ⟨hf, ⟨p, hc, hs⟩ | ⟨hc, hs⟩⟩
    · exact .inl ⟨_, name, rfl, hf, by rw [serve, hs]⟩
    · have asked : Request.declares unicode (.pattern source) = some (.pattern p) := by
        rw [Request.declares, hc]
        rfl
      exact .inr ⟨fresh hf, .inl ⟨_, asked, by rw [serve, hs]⟩⟩
    · have refused : Request.declares unicode (.pattern source) = none := by
        rw [Request.declares, hc]
        rfl
      exact .inr ⟨fresh hf, .inr ⟨refused, by rw [serve, hs]⟩⟩
  | routine r => exact .inr ⟨nofun, .inl ⟨.routine r, rfl, rfl⟩⟩
  | builtin b =>
    rcases pool.share_cases (d := .builtin b) rfl with ⟨name, hf, hs⟩ | ⟨hf, hs⟩
    · exact .inl ⟨_, name, rfl, hf, by rw [serve, includeBuiltin, hs]⟩
    · exact .inr ⟨fresh hf, .inl ⟨_, rfl, by rw [serve, includeBuiltin, hs]⟩⟩

theorem prefix_serve (unicode : Bool) (pool : Pool) (request : Request) :
    pool.declarations <+: (pool.serve unicode request).2.declarations := by
  rcases serve_cases unicode pool request with ⟨key, name, -, -, hs⟩ | ⟨-, ⟨d, -, hs⟩ | ⟨-, hs⟩⟩
  · simp only [hs, List.prefix_rfl]
  · simp only [hs, declarations_declare, List.prefix_append]
  · simp only [hs, List.prefix_rfl]

theorem Sound.serve (h : pool.Sound unicode) (request : Request) :
    (pool.serve unicode request).2.Sound unicode := by
  rcases serve_cases unicode pool request with
    ⟨key, name, -, -, hs⟩ | ⟨fresh, ⟨d, hd, hs⟩ | ⟨-, hs⟩⟩ <;> rw [hs]
  · exact h
  · refine h.declare (fun key hkey => fresh key ?_) fun p hp => ?_
    · rw [← Request.key?_declared hd, hkey]
    · subst hp
      cases request with
      | pattern source =>
        obtain ⟨q, hq, hqp⟩ := Option.map_eq_some_iff.mp hd
        cases hqp
        rw [Pattern.source_compile? hq, hq]
      | _ => cases hd
  · exact h

/-- What the tables have under the key of a call is the declaration that is asked for. -/
theorem Sound.found (h : pool.Sound unicode) (hk : request.key? = some key)
    (hf : pool.find? key = some name) :
    ∃ d, request.declares unicode = some d ∧ pool.declarations[name]? = some d := by
  obtain ⟨d, hn, hd⟩ := (h.coherent key name).mp hf
  refine ⟨d, ?_, hn⟩
  cases d with
  | literal json =>
    cases hd
    rw [Request.key?_inj hk (.literal json) rfl, Request.declares]
  | pattern p =>
    cases hd
    rw [Request.key?_inj hk (.pattern p.source) rfl, Request.declares, h.patterns name p hn]
    rfl
  | routine r => cases hd
  | builtin b =>
    cases hd
    rw [Request.key?_inj hk (.builtin b) rfl, Request.declares]

theorem Sound.serve_get (h : pool.Sound unicode)
    (hn : (pool.serve unicode request).1 = some name) :
    ∃ d, request.declares unicode = some d ∧
      (pool.serve unicode request).2.declarations[name]? = some d := by
  rcases serve_cases unicode pool request with
    ⟨key, found, hk, hf, hs⟩ | ⟨-, ⟨d, hd, hs⟩ | ⟨-, hs⟩⟩ <;> rw [hs] at hn ⊢
  · cases hn
    exact h.found hk hf
  · cases hn
    exact ⟨d, hd, by simp⟩
  · cases hn

theorem Sound.serve_eq_none_iff (h : pool.Sound unicode) :
    (pool.serve unicode request).1 = none ↔ request.declares unicode = none := by
  rcases serve_cases unicode pool request with
    ⟨key, found, hk, hf, hs⟩ | ⟨-, ⟨d, hd, hs⟩ | ⟨hd, hs⟩⟩ <;> rw [hs]
  · obtain ⟨d, hd, -⟩ := h.found hk hf
    simp [hd]
  · simp [hd]
  · simp [hd]

theorem serve_of_none (h : (pool.serve unicode request).1 = none) :
    (pool.serve unicode request).2 = pool := by
  rcases serve_cases unicode pool request with ⟨key, found, -, -, hs⟩ | ⟨-, ⟨d, -, hs⟩ | ⟨-, hs⟩⟩
  · rw [hs]
  · rw [hs] at h
    cases h
  · rw [hs]

theorem serve_of_find? (hk : request.key? = some key) (hf : pool.find? key = some name) :
    (pool.serve unicode request).1 = some name := by
  rcases serve_cases unicode pool request with ⟨own, found, hown, hf', hs⟩ | ⟨fresh, -⟩
  · obtain rfl : key = own := Option.some.inj (hk.symm.trans hown)
    rw [hs, ← hf, ← hf']
  · rw [fresh key hk] at hf
    cases hf

theorem find?_serve_self (hk : request.key? = some key)
    (hn : (pool.serve unicode request).1 = some name) :
    (pool.serve unicode request).2.find? key = some name := by
  rcases serve_cases unicode pool request with
    ⟨own, found, hown, hf, hs⟩ | ⟨-, ⟨d, hd, hs⟩ | ⟨-, hs⟩⟩ <;> rw [hs] at hn ⊢
  · obtain rfl : key = own := Option.some.inj (hk.symm.trans hown)
    cases hn
    exact hf
  · cases hn
    exact find?_declare_self pool (by rw [Request.key?_declared hd, hk])
  · cases hn

theorem find?_serve (request : Request) (hf : pool.find? key = some name) :
    (pool.serve unicode request).2.find? key = some name := by
  rcases serve_cases unicode pool request with
    ⟨own, found, -, -, hs⟩ | ⟨fresh, ⟨d, hd, hs⟩ | ⟨-, hs⟩⟩ <;> rw [hs]
  · exact hf
  · rw [find?_declare_other pool fun hkey => ?_]
    · exact hf
    · rw [Request.key?_declared hd] at hkey
      rw [fresh key hkey] at hf
      cases hf
  · exact hf

/-! ## Runs -/

theorem prefix_extend (unicode : Bool) (pool : Pool) (requests : List Request) :
    pool.declarations <+: (extend unicode pool requests).declarations := by
  induction requests generalizing pool with
  | nil => exact List.prefix_rfl
  | cons request later ih => exact (prefix_serve unicode pool request).trans (ih _)

theorem find?_extend (unicode : Bool) (requests : List Request)
    (hf : pool.find? key = some name) :
    (extend unicode pool requests).find? key = some name := by
  induction requests generalizing pool with
  | nil => exact hf
  | cons request later ih => exact ih (find?_serve request hf)

theorem Sound.extend (h : pool.Sound unicode) (requests : List Request) :
    (extend unicode pool requests).Sound unicode := by
  induction requests generalizing pool with
  | nil => exact h
  | cons request later ih => exact ih (h.serve request)

/-- After every run the tables are in step with the declarations. -/
theorem sound_after (unicode : Bool) (requests : List Request) :
    (after unicode requests).Sound unicode :=
  (sound_empty unicode).extend requests

theorem after_append (unicode : Bool) (earlier : List Request) (request : Request)
    (later : List Request) : after unicode (earlier ++ request :: later) =
      extend unicode ((after unicode earlier).serve unicode request).2 later := by
  rw [after, extend, List.foldl_append, List.foldl_cons]
  rfl

theorem after_get {earlier : List Request} (later : List Request)
    (h : answer unicode earlier request = some name) :
    ∃ d, request.declares unicode = some d ∧
      (after unicode (earlier ++ request :: later)).declarations[name]? = some d := by
  obtain ⟨d, hd, hn⟩ := (sound_after unicode earlier).serve_get h
  refine ⟨d, hd, ?_⟩
  rw [after_append]
  exact Declarations.get_extended (prefix_extend unicode _ later) hn

theorem lt_length_of_answer {earlier : List Request} (later : List Request)
    (h : answer unicode earlier request = some name) :
    name < (after unicode (earlier ++ request :: later)).declarations.length := by
  obtain ⟨d, -, hn⟩ := after_get later h
  exact (List.getElem?_eq_some_iff.mp hn).1

theorem answer_routine (unicode : Bool) (earlier : List Request) (r : Routine) :
    answer unicode earlier (.routine r) = some (after unicode earlier).declarations.length := rfl

/-- Two calls return one name if they ask for the same and do not ask for a routine. -/
theorem answer_eq_iff {earlier middle : List Request} {first second : Request} {m n : Name}
    (hm : answer unicode earlier first = some m)
    (hn : answer unicode (earlier ++ first :: middle) second = some n) :
    m = n ↔ first = second ∧ ∀ r, first ≠ .routine r := by
  constructor
  · rintro rfl
    obtain ⟨d, hd, hget⟩ := after_get (middle ++ [second]) hm
    obtain ⟨e, he, hget'⟩ := after_get [] hn
    rw [List.append_assoc, List.cons_append, hget, Option.some.injEq] at hget'
    subst hget'
    obtain rfl := Request.declares_inj hd he
    refine ⟨rfl, fun r hr => ?_⟩
    -- a second routine would be one declaration further
    rw [hr, answer_routine, Option.some.injEq] at hn
    have below := lt_length_of_answer middle hm
    rw [hr, hn] at below
    exact Nat.lt_irrefl m below
  · rintro ⟨rfl, hr⟩
    cases hk : first.key? with
    | none => cases first with
      | routine r => exact absurd rfl (hr r)
      | _ => cases hk
    | some key =>
      have found := find?_extend unicode middle (find?_serve_self hk hm)
      rw [← after_append] at found
      rw [answer, serve_of_find? hk found] at hn
      exact Option.some.inj hn

theorem names_append (unicode : Bool) (pool : Pool) (earlier later : List Request) :
    names unicode pool (earlier ++ later) =
      names unicode pool earlier ++ names unicode (extend unicode pool earlier) later := by
  induction earlier generalizing pool with
  | nil => rfl
  | cons request earlier ih =>
    rw [List.cons_append, names, ih, names, List.append_assoc]
    rfl

theorem eraseDups_names (unicode : Bool) (requests : List Request) :
    (names unicode {} requests).eraseDups =
      List.range (after unicode requests).declarations.length := by
  induction requests using List.reverseRecOn with
  | nil => rfl
  | append_singleton earlier request ih =>
    have member (name : Name) : name ∈ names unicode {} earlier ↔
        name < (after unicode earlier).declarations.length := by
      rw [← List.mem_eraseDups, ih, List.mem_range]
    have last : names unicode (after unicode earlier) [request] =
        (answer unicode earlier request).toList := by
      rw [names, names, List.append_nil]
      rfl
    rw [names_append, ← after, last, List.eraseDups_append, ih, after_append]
    change _ = List.range ((after unicode earlier).serve unicode request).2.declarations.length
    rw [answer]
    rcases serve_cases unicode (after unicode earlier) request with
      ⟨key, found, -, hf, hs⟩ | ⟨-, ⟨d, -, hs⟩ | ⟨-, hs⟩⟩ <;> rw [hs]
    · obtain ⟨d, hn, -⟩ := ((sound_after unicode earlier).coherent key found).mp hf
      have old : found ∈ names unicode {} earlier :=
        (member found).mpr (List.getElem?_eq_some_iff.mp hn).1
      simp [List.removeAll, old]
    · have new : (after unicode earlier).declarations.length ∉ names unicode {} earlier := by
        rw [member]
        exact Nat.lt_irrefl _
      simp [List.removeAll, new, List.range_succ, List.eraseDups_cons]
    · simp [List.removeAll]

/-- A name that was returned addresses the declaration that was asked for, after all later calls.
Names count up in the order of first insertion, two calls share one if they ask for the same and not
for a routine, only a refused pattern makes a call fail, and that leaves the pool as it was. -/
theorem run_sound (unicode : Bool) :
    (∀ earlier request later name, answer unicode earlier request = some name →
      ∃ d, request.declares unicode = some d ∧
        (after unicode (earlier ++ request :: later)).declarations[name]? = some d ∧
        ∀ source, request = .pattern source → ∃ p, d = .pattern p ∧ p.source = source) ∧
    (∀ requests, (names unicode {} requests).eraseDups =
      List.range (after unicode requests).declarations.length) ∧
    (∀ earlier first middle second m n, answer unicode earlier first = some m →
      answer unicode (earlier ++ first :: middle) second = some n →
        (m = n ↔ first = second ∧ ∀ r, first ≠ .routine r)) ∧
    (∀ earlier request, answer unicode earlier request = none ↔
      ∃ source, request = .pattern source ∧ Pattern.compile? unicode source = none) ∧
    ∀ earlier request, answer unicode earlier request = none →
      after unicode (earlier ++ [request]) = after unicode earlier := by
  refine ⟨?_, eraseDups_names unicode,
    fun earlier first middle second m n hm hn => answer_eq_iff hm hn, ?_, ?_⟩
  · intro earlier request later name h
    obtain ⟨d, hd, hget⟩ := after_get later h
    refine ⟨d, hd, hget, ?_⟩
    rintro source rfl
    obtain ⟨p, hp, rfl⟩ := Option.map_eq_some_iff.mp hd
    exact ⟨p, rfl, Pattern.source_compile? hp⟩
  · intro earlier request
    rw [answer, (sound_after unicode earlier).serve_eq_none_iff, Request.declares_eq_none_iff]
  · intro earlier request h
    rw [after_append]
    exact serve_of_none h

end Runs

/-- One as an integer and one as a real are different literals, with a refused pattern asked for in
between; the first of them is found again. -/
theorem kinds_of_one_kept_apart :
    let whole : Request := .literal (.number (.natural 1))
    let real : Request := .literal (.number (.real ⟨false, 4503599627370496, -52, by decide⟩))
    let refused : Request := .pattern "("
    answer true [] whole = some 0 ∧ answer true [whole] refused = none ∧
      answer true [whole, refused] real = some 1 ∧
      answer true [whole, refused, real] whole = some 0 ∧
      (∃ d, real.declares true = some d ∧
        (after true [whole, refused, real, whole]).declarations[1]? = some d ∧
        ∀ source, real = .pattern source → ∃ p, d = .pattern p ∧ p.source = source) ∧
      (names true {} [whole, refused, real, whole]).eraseDups =
        List.range (after true [whole, refused, real, whole]).declarations.length ∧
      (0 = 1 ↔ whole = real ∧ ∀ r, whole ≠ .routine r) ∧
      (∃ source, refused = .pattern source ∧ Pattern.compile? true source = none) ∧
      after true [whole, refused] = after true [whole] := by
  intro whole real refused
  have first : answer true [] whole = some 0 := by decide +kernel
  have fails : answer true [whole] refused = none := by decide +kernel
  have second : answer true [whole, refused] real = some 1 := by decide +kernel
  have again : answer true [whole, refused, real] whole = some 0 := by decide +kernel
  obtain ⟨addresses, inOrder, sharing, failing, unchanged⟩ := run_sound true
  exact ⟨first, fails, second, again, addresses _ _ [whole] _ second, inOrder _,
    sharing [] _ [refused] _ _ _ first second, (failing [whole] refused).mp fails,
    unchanged _ _ fails⟩

end SchemaLogic.Pool
