import ScriptFront.Text.Interval

/-!
# Blanks

The characters that separate tokens and belong to none: the Unicode property
`White_Space`. Format characters, such as the zero width space, are not in it,
nor are the separators U+001C to U+001F.
-/

namespace ScriptFront.Text

/-- The intervals of the property `White_Space`. -/
def blankIntervals : List (Nat × Nat) :=
  [ (0x09, 0x0D), (0x20, 0x20), (0x85, 0x85), (0xA0, 0xA0), (0x1680, 0x1680), (0x2000, 0x200A),
    (0x2028, 0x2029), (0x202F, 0x202F), (0x205F, 0x205F), (0x3000, 0x3000) ]

/-- Whether `c` is a blank. -/
def isBlank (c : Char) : Bool := inIntervals blankIntervals c

end ScriptFront.Text
