/-! # UTF-16 code units of text -/
namespace SchemaLogic.Text

/-- The code units of a character: one up to U+FFFF, else a high and a low surrogate. -/
def unitsOf (c : Char) : List Nat :=
  if c.toNat ≤ 0xFFFF then [c.toNat]
  else [0xD800 + (c.toNat - 0x10000) / 0x400, 0xDC00 + (c.toNat - 0x10000) % 0x400]

def units (s : String) : List Nat := s.toList.flatMap unitsOf

def unitCount (s : String) : Nat := (units s).length

def isHighSurrogate (unit : Nat) : Bool := 0xD800 ≤ unit && unit < 0xDC00

def isLowSurrogate (unit : Nat) : Bool := 0xDC00 ≤ unit && unit < 0xE000

def isSurrogate (unit : Nat) : Bool := 0xD800 ≤ unit && unit < 0xE000

end SchemaLogic.Text
