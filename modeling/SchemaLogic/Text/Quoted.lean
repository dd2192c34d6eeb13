import SchemaLogic.Text.Category

/-! # Text in quotes with every character that cannot be seen written as a number -/
namespace SchemaLogic.Text

/-- Characters outside the mark categories that extend the one before them. -/
def extendingRuns : List Run :=
  [(0x9BE, 0x9BE, 1), (0x9D7, 0x9D7, 1), (0xB3E, 0xB3E, 1), (0xB57, 0xB57, 1), (0xBBE, 0xBBE, 1),
   (0xBD7, 0xBD7, 1), (0xCC0, 0xCC0, 1), (0xCC2, 0xCC2, 1), (0xCC7, 0xCC8, 1), (0xCCA, 0xCCB, 1),
   (0xCD5, 0xCD6, 1), (0xD3E, 0xD3E, 1), (0xD57, 0xD57, 1), (0xDCF, 0xDCF, 1), (0xDDF, 0xDDF, 1),
   (0x1715, 0x1715, 1), (0x1734, 0x1734, 1), (0x1B35, 0x1B35, 1), (0x1B3B, 0x1B3B, 1),
   (0x1B3D, 0x1B3D, 1), (0x1B43, 0x1B44, 1), (0x1BAA, 0x1BAA, 1), (0x1BF2, 0x1BF3, 1),
   (0x200C, 0x200C, 1), (0x302E, 0x302F, 1), (0xA953, 0xA953, 1), (0xA9C0, 0xA9C0, 1),
   (0xFF9E, 0xFF9F, 1), (0x111C0, 0x111C0, 1), (0x11235, 0x11235, 1), (0x1133E, 0x1133E, 1),
   (0x1134D, 0x1134D, 1), (0x11357, 0x11357, 1), (0x113B8, 0x113B8, 1), (0x113C2, 0x113C2, 1),
   (0x113C5, 0x113C5, 1), (0x113C7, 0x113C9, 1), (0x113CF, 0x113CF, 1), (0x114B0, 0x114B0, 1),
   (0x114BD, 0x114BD, 1), (0x115AF, 0x115AF, 1), (0x116B6, 0x116B6, 1), (0x11930, 0x11930, 1),
   (0x1193D, 0x1193D, 1), (0x11F41, 0x11F41, 1), (0x16FF0, 0x16FF1, 1), (0x1D165, 0x1D166, 1),
   (0x1D16D, 0x1D172, 1)]

/-- Separators other than the blank, controls, unassigned characters and those that extend the
character before them. -/
def isHidden (n : Nat) : Bool :=
  let hidden := Category.separators ++ Category.others ++ [.nonspacingMark, .enclosingMark]
  n != 0x20 && (hidden.contains (Category.of n) || Run.anyContains extendingRuns n)

def quotedChar (c : Char) : List Char :=
  if c = '"' then ['\\', '"']
  else if c = '\\' then ['\\', '\\']
  else if c = '\n' then ['\\', 'n']
  else if c = '\r' then ['\\', 'r']
  else if c = '\t' then ['\\', 't']
  else if c.toNat = 0 then ['\\', '0']
  else if isHidden c.toNat then ['\\', 'u', '\x7b'] ++ Nat.toDigits 16 c.toNat ++ ['\x7d']
  else [c]

def quoted (s : String) : String := String.ofList ('"' :: s.toList.flatMap quotedChar ++ ['"'])

end SchemaLogic.Text
