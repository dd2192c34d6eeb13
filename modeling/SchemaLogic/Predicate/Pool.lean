import SchemaLogic.Expr.Basic
import SchemaLogic.Json.Printer
import SchemaLogic.Pattern.Basic

/-! # Declarations that conditions refer to by name

A pool only ever appends, so a name is the place of its declaration. Beside the declarations it
keeps three tables, in which the name of a literal, a pattern or a helper is found by its key. -/
namespace SchemaLogic

/-- Tests of arrays that take more than one expression. -/
inductive Routine where
  | count (item : Slot) (body : Expr) (least : Nat) (most : Option Nat)
  | everyFrom (start : Nat) (item : Slot) (body : Expr)

inductive Builtin where
  | deepEqual
  deriving DecidableEq, Repr

inductive Declaration where
  | literal (json : Json)
  | pattern (p : Pattern)
  | routine (r : Routine)
  | builtin (b : Builtin)

@[match_pattern] abbrev Declaration.deepEqual : Declaration := .builtin .deepEqual

abbrev Declarations := List Declaration

/-- A row in front hides the rows with its key behind it. -/
structure Pool where
  declarations : Declarations := []
  literals : List (String × Name) := []
  patterns : List (String × Name) := []
  builtins : List (Builtin × Name) := []

namespace Pool

inductive Key where
  | literal (text : String)
  | pattern (source : String)
  | builtin (b : Builtin)
  deriving DecidableEq, Repr

def find? (pool : Pool) : Key → Option Name
  | .literal text => pool.literals.lookup text
  | .pattern source => pool.patterns.lookup source
  | .builtin b => pool.builtins.lookup b

def record (pool : Pool) (key : Key) (name : Name) : Pool :=
  match key with
  | .literal text => { pool with literals := (text, name) :: pool.literals }
  | .pattern source => { pool with patterns := (source, name) :: pool.patterns }
  | .builtin b => { pool with builtins := (b, name) :: pool.builtins }

def push (pool : Pool) (d : Declaration) : Name × Pool :=
  (pool.declarations.length, { pool with declarations := pool.declarations ++ [d] })

def add (pool : Pool) (key : Key) (d : Declaration) : Name × Pool :=
  let (name, pool) := pool.push d
  (name, pool.record key name)

/-- What has the key is shared; only where nothing has it is a declaration added. -/
def share (pool : Pool) (key : Key) (d : Declaration) : Name × Pool :=
  match pool.find? key with
  | some name => (name, pool)
  | none => pool.add key d

def addLiteral (pool : Pool) (json : Json) : Name × Pool :=
  pool.share (.literal json.text) (.literal json)

/-- Patterns of one source share a name; a pattern that is refused adds nothing. -/
def addPattern? [Pattern.Engines] (pool : Pool) (unicode : Bool) (source : String) :
    Option (Name × Pool) :=
  match pool.find? (.pattern source) with
  | some name => some (name, pool)
  | none => (Pattern.compile? unicode source).map fun p => pool.add (.pattern source) (.pattern p)

def addRoutine (pool : Pool) (r : Routine) : Name × Pool := pool.push (.routine r)

def includeBuiltin (pool : Pool) (b : Builtin) : Name × Pool :=
  pool.share (.builtin b) (.builtin b)

end Pool

end SchemaLogic
