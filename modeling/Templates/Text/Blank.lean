import Templates.Text.Ranges

/-!
# Blank characters

The white space of Unicode: the characters with the property `White_Space`. They separate tokens
and have no other meaning in a template.
-/

namespace Templates

/-- Code points with the Unicode property `White_Space`, in ascending order. -/
def blankRanges : List (Nat × Nat) :=
  [(0x09, 0x0D), (0x20, 0x20), (0x85, 0x85), (0xA0, 0xA0), (0x1680, 0x1680), (0x2000, 0x200A),
    (0x2028, 0x2029), (0x202F, 0x202F), (0x205F, 0x205F), (0x3000, 0x3000)]

/-- The character is white space. -/
def isBlank (c : Char) : Bool := liesInRanges c.toNat blankRanges

end Templates
