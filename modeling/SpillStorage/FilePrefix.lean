import SpillStorage.Failure

/-!
The prefix of temp file names: one to 64 letters, digits, underscores, dots and hyphens, and neither
of the two names that stand for a directory. Such a prefix cannot lead out of its directory.

Correspondence:
  `FilePrefix::new`             ↔ `ofString`
  `FilePrefix::validate_prefix` ↔ `accepts`
-/

namespace SpillStorage

namespace FilePrefix

/-- The greatest length of a prefix in bytes. -/
def greatestLength : Nat := 64

/-- A character that a prefix may hold; only letters and digits of ASCII count as such. -/
def allows (c : Char) : Bool := c.isAlphanum || c == '_' || c == '.' || c == '-'

/-- The rule for prefixes. -/
def accepts (text : String) : Bool :=
  decide (0 < text.utf8ByteSize) && decide (text.utf8ByteSize ≤ greatestLength) &&
    text.toList.all allows && text != "." && text != ".."

end FilePrefix

/-- A text that the rule for prefixes accepts. -/
structure FilePrefix where
  text : String
  accepted : FilePrefix.accepts text = true
  deriving DecidableEq

/-- The text as a prefix, if it is one. -/
def FilePrefix.ofString (text : String) : Except Failure FilePrefix :=
  if h : FilePrefix.accepts text = true then .ok ⟨text, h⟩ else .error (.invalidPrefix text)

end SpillStorage
