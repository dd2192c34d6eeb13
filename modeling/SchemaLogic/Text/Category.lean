import SchemaLogic.Text.Category.Letter
import SchemaLogic.Text.Category.Mark
import SchemaLogic.Text.Category.Symbol
import SchemaLogic.Text.Category.Other

/-! # General categories of characters -/
namespace SchemaLogic.Text

inductive Category where
  | uppercaseLetter | lowercaseLetter | titlecaseLetter | modifierLetter | otherLetter
  | nonspacingMark | spacingMark | enclosingMark
  | decimalNumber | letterNumber | otherNumber
  | connectorPunctuation | dashPunctuation | openPunctuation | closePunctuation
  | initialPunctuation | finalPunctuation | otherPunctuation
  | mathSymbol | currencySymbol | modifierSymbol | otherSymbol
  | spaceSeparator | lineSeparator | paragraphSeparator
  | control | format | surrogate | privateUse | unassigned
  deriving DecidableEq, Repr

namespace Category

/-- Every category with characters of its own; what no run holds is unassigned. -/
def table : List (Category × List Run) :=
  [(.uppercaseLetter, uppercaseLetterRuns), (.lowercaseLetter, lowercaseLetterRuns),
   (.titlecaseLetter, titlecaseLetterRuns), (.modifierLetter, modifierLetterRuns),
   (.otherLetter, otherLetterRuns), (.nonspacingMark, nonspacingMarkRuns),
   (.spacingMark, spacingMarkRuns), (.enclosingMark, enclosingMarkRuns),
   (.decimalNumber, decimalNumberRuns), (.letterNumber, letterNumberRuns),
   (.otherNumber, otherNumberRuns), (.connectorPunctuation, connectorPunctuationRuns),
   (.dashPunctuation, dashPunctuationRuns), (.openPunctuation, openPunctuationRuns),
   (.closePunctuation, closePunctuationRuns), (.initialPunctuation, initialPunctuationRuns),
   (.finalPunctuation, finalPunctuationRuns), (.otherPunctuation, otherPunctuationRuns),
   (.mathSymbol, mathSymbolRuns), (.currencySymbol, currencySymbolRuns),
   (.modifierSymbol, modifierSymbolRuns), (.otherSymbol, otherSymbolRuns),
   (.spaceSeparator, spaceSeparatorRuns), (.lineSeparator, lineSeparatorRuns),
   (.paragraphSeparator, paragraphSeparatorRuns), (.control, controlRuns), (.format, formatRuns),
   (.surrogate, surrogateRuns), (.privateUse, privateUseRuns)]

def of (n : Nat) : Category :=
  match table.find? fun (_, runs) => Run.anyContains runs n with
  | some (category, _) => category
  | none => .unassigned

def letters : List Category :=
  [.uppercaseLetter, .lowercaseLetter, .titlecaseLetter, .modifierLetter, .otherLetter]

def casedLetters : List Category := [.uppercaseLetter, .lowercaseLetter, .titlecaseLetter]

def marks : List Category := [.nonspacingMark, .spacingMark, .enclosingMark]

def numbers : List Category := [.decimalNumber, .letterNumber, .otherNumber]

def punctuation : List Category :=
  [.connectorPunctuation, .dashPunctuation, .openPunctuation, .closePunctuation,
   .initialPunctuation, .finalPunctuation, .otherPunctuation]

def symbols : List Category := [.mathSymbol, .currencySymbol, .modifierSymbol, .otherSymbol]

def separators : List Category := [.spaceSeparator, .lineSeparator, .paragraphSeparator]

def others : List Category := [.control, .format, .surrogate, .privateUse, .unassigned]

def named : List (String × List Category) :=
  [("l", letters), ("letter", letters), ("lc", casedLetters), ("casedletter", casedLetters),
   ("lu", [.uppercaseLetter]), ("uppercaseletter", [.uppercaseLetter]),
   ("ll", [.lowercaseLetter]), ("lowercaseletter", [.lowercaseLetter]),
   ("lt", [.titlecaseLetter]), ("titlecaseletter", [.titlecaseLetter]),
   ("lm", [.modifierLetter]), ("modifierletter", [.modifierLetter]),
   ("lo", [.otherLetter]), ("otherletter", [.otherLetter]),
   ("m", marks), ("mark", marks), ("combiningmark", marks),
   ("mn", [.nonspacingMark]), ("nonspacingmark", [.nonspacingMark]),
   ("mc", [.spacingMark]), ("spacingmark", [.spacingMark]),
   ("me", [.enclosingMark]), ("enclosingmark", [.enclosingMark]),
   ("n", numbers), ("number", numbers),
   ("nd", [.decimalNumber]), ("decimalnumber", [.decimalNumber]), ("digit", [.decimalNumber]),
   ("nl", [.letterNumber]), ("letternumber", [.letterNumber]),
   ("no", [.otherNumber]), ("othernumber", [.otherNumber]),
   ("p", punctuation), ("punctuation", punctuation), ("punct", punctuation),
   ("pc", [.connectorPunctuation]), ("connectorpunctuation", [.connectorPunctuation]),
   ("pd", [.dashPunctuation]), ("dashpunctuation", [.dashPunctuation]),
   ("ps", [.openPunctuation]), ("openpunctuation", [.openPunctuation]),
   ("pe", [.closePunctuation]), ("closepunctuation", [.closePunctuation]),
   ("pi", [.initialPunctuation]), ("initialpunctuation", [.initialPunctuation]),
   ("pf", [.finalPunctuation]), ("finalpunctuation", [.finalPunctuation]),
   ("po", [.otherPunctuation]), ("otherpunctuation", [.otherPunctuation]),
   ("s", symbols), ("symbol", symbols),
   ("sm", [.mathSymbol]), ("mathsymbol", [.mathSymbol]),
   ("sc", [.currencySymbol]), ("currencysymbol", [.currencySymbol]),
   ("sk", [.modifierSymbol]), ("modifiersymbol", [.modifierSymbol]),
   ("so", [.otherSymbol]), ("othersymbol", [.otherSymbol]),
   ("z", separators), ("separator", separators),
   ("zs", [.spaceSeparator]), ("spaceseparator", [.spaceSeparator]),
   ("zl", [.lineSeparator]), ("lineseparator", [.lineSeparator]),
   ("zp", [.paragraphSeparator]), ("paragraphseparator", [.paragraphSeparator]),
   ("c", others), ("other", others),
   ("cc", [.control]), ("control", [.control]), ("cntrl", [.control]),
   ("cf", [.format]), ("format", [.format]),
   ("cs", [.surrogate]), ("surrogate", [.surrogate]),
   ("co", [.privateUse]), ("privateuse", [.privateUse]),
   ("cn", [.unassigned]), ("unassigned", [.unassigned])]

end Category

/-- The characters of White_Space. -/
def spaceRuns : List Run :=
  [(0x9, 0xD, 1), (0x20, 0x20, 1), (0x85, 0x85, 1), (0xA0, 0xA0, 1), (0x1680, 0x1680, 1),
   (0x2000, 0x200A, 1), (0x2028, 0x2029, 1), (0x202F, 0x202F, 1), (0x205F, 0x205F, 1),
   (0x3000, 0x3000, 1)]

def isSpace (n : Nat) : Bool := Run.anyContains spaceRuns n

def isAlphabetic (n : Nat) : Bool :=
  (Category.letterNumber :: Category.letters).contains (Category.of n)

def isAlphanumeric (n : Nat) : Bool :=
  (Category.letters ++ Category.numbers).contains (Category.of n)

end SchemaLogic.Text
