/-!
# Blank text

A text is blank when all its characters are white space in the sense of the Unicode property, which
goes beyond the characters that JSON allows between tokens.

## Main definitions

* `Text.isSpace`, `Text.isBlank`
-/

namespace Signpost.Text

/-- The code points with the Unicode property `White_Space`, as ranges. -/
def spaceRanges : List (Nat × Nat) :=
  [(0x9, 0xD), (0x20, 0x20), (0x85, 0x85), (0xA0, 0xA0), (0x1680, 0x1680), (0x2000, 0x200A),
    (0x2028, 0x2029), (0x202F, 0x202F), (0x205F, 0x205F), (0x3000, 0x3000)]

/-- Whether a character is white space. -/
def isSpace (c : Char) : Bool :=
  spaceRanges.any fun r => decide (r.1 ≤ c.toNat ∧ c.toNat ≤ r.2)

/-- Whether a text holds nothing but white space. -/
def isBlank (s : String) : Bool := s.toList.all isSpace

end Signpost.Text
