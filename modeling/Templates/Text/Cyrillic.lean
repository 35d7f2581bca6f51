import Templates.Text.Ranges

/-!
# Cyrillic letters

Templates are written in English, and the letters that slip in unnoticed are those of the Cyrillic
script, many of which look like Latin ones.
-/

namespace Templates

/-- Code points of the Unicode script `Cyrillic`, in ascending order. -/
def cyrillicRanges : List (Nat × Nat) :=
  [(0x0400, 0x0484), (0x0487, 0x052F), (0x1C80, 0x1C8A), (0x1D2B, 0x1D2B), (0x1D78, 0x1D78),
    (0x2DE0, 0x2DFF), (0xA640, 0xA69F), (0xFE2E, 0xFE2F), (0x1E030, 0x1E06D), (0x1E08F, 0x1E08F)]

/-- The character belongs to the Cyrillic script. -/
def isCyrillic (c : Char) : Bool := liesInRanges c.toNat cyrillicRanges

end Templates
