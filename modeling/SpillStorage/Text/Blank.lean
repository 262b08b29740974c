/-!
White space: the 25 characters to which Unicode gives the property White_Space. `trim` takes it off
both ends of a text.
-/

namespace SpillStorage.Text

/-- The runs of white space characters, first and last of each. -/
def blankRanges : List (Nat × Nat) :=
  [(0x9, 0xD), (0x20, 0x20), (0x85, 0x85), (0xA0, 0xA0), (0x1680, 0x1680), (0x2000, 0x200A),
    (0x2028, 0x2029), (0x202F, 0x202F), (0x205F, 0x205F), (0x3000, 0x3000)]

def isBlank (c : Char) : Bool :=
  blankRanges.any fun (first, last) => decide (first ≤ c.toNat) && decide (c.toNat ≤ last)

/-- The text without the white space at its start. -/
def trimStart (chars : List Char) : List Char := chars.dropWhile isBlank

/-- The text without the white space at its end. -/
def trimEnd (chars : List Char) : List Char := (trimStart chars.reverse).reverse

def trim (chars : List Char) : List Char := trimEnd (trimStart chars)

end SpillStorage.Text
