import SchemaLogic.Expr.Printer
import SchemaLogic.Predicate.Basic

/-! # The printed form of predicates: their declarations, then the condition on the input -/
namespace SchemaLogic

def Routine.render : Routine → String
  | .count item body least most =>
    "|a| \x7b let c = a.iter().filter(|" ++ item.render ++ "| " ++ body.render ++ ").count(); c >= "
      ++ toString least ++ (match most with
        | some n => " && c <= " ++ toString n
        | none => "") ++ " \x7d"
  | .everyFrom start item body =>
    "|a| a.iter().skip(" ++ toString start ++ ").all(|" ++ item.render ++ "| " ++ body.render ++ ")"

def Declaration.render : Declaration → String
  | .literal json => json.text
  | .pattern p => p.render
  | .routine r => r.render
  | .deepEqual => "deep_equal"

def Declarations.lines (pool : Declarations) : List String :=
  pool.zipIdx.map fun (d, name) => "let " ++ Name.render name ++ " = " ++ d.render ++ ";"

def Predicate.render (p : Predicate) : String :=
  "\n".intercalate (Declarations.lines p.pool ++ ["|x| " ++ p.root.render])

end SchemaLogic
