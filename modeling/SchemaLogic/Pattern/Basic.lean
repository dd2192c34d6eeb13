import SchemaLogic.Pattern.Dialect
import SchemaLogic.Pattern.Literal
import SchemaLogic.Json.Printer
import SchemaLogic.Text.Quoted

/-! # Compiled patterns

A literal is compared as it is. Any other pattern is respelled and handed to one of two engines, of
which nothing is used here but that they refuse a class without an end. -/
namespace SchemaLogic

/-- What reads respelled patterns and searches texts for them. Backtracking may give up. -/
class Pattern.Engines where
  standard : List Char → Option (List Nat → Bool)
  backtracking : List Char → Option (List Nat → Option Bool)
  standard_unclosed : standard ['['] = none
  backtracking_unclosed : backtracking ['['] = none

inductive Pattern.Form where
  | leading (text : String)
  | whole (text : String)
  | standard (search : List Nat → Bool)
  | backtracking (search : List Nat → Option Bool)

structure Pattern where
  source : String
  unicode : Bool
  form : Pattern.Form

namespace Pattern

def expression? [Engines] (unicode : Bool) (source : List Char) : Option Form :=
  match Engines.standard (respell unicode .flagged source) with
  | some search => some (.standard search)
  | none => (Engines.backtracking (respell unicode .lookaround source)).map .backtracking

def Literal.form (l : Literal) : Form :=
  if l.closed then .whole (String.ofList l.text) else .leading (String.ofList l.text)

def compile? [Engines] (unicode : Bool) (source : String) : Option Pattern :=
  match literal? source.toList with
  | some l => some ⟨source, unicode, l.form⟩
  | none => (expression? unicode source.toList).map fun form => ⟨source, unicode, form⟩

/-- A search that is given up counts as a mismatch. -/
def Form.isMatch (unicode : Bool) (form : Form) (text : String) : Bool :=
  match form with
  | .leading start => start.toList.isPrefixOf text.toList
  | .whole all => all == text
  | .standard search => search (encode unicode text.toList)
  | .backtracking search => (search (encode unicode text.toList)).getD false

def isMatch (p : Pattern) (text : String) : Bool := p.form.isMatch p.unicode text

def render (p : Pattern) : String :=
  match p.form with
  | .leading text => "prefix(" ++ Json.quote text ++ ")"
  | .whole text => "exact(" ++ Json.quote text ++ ")"
  | .standard _ => "regex(" ++ Json.quote p.source ++ ")"
  | .backtracking _ => "fancy_regex(" ++ Json.quote p.source ++ ")"

def describe (p : Pattern) : String := "Pattern(" ++ Text.quoted p.source ++ ")"

end Pattern

end SchemaLogic
