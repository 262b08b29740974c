import SpillStorage.Text.Quoted

/-!
Paths are byte strings whose components are separated by slashes. `components` is the view that
matters for telling directories apart: empty components and single dots name nothing and are
dropped, double dots are kept. `normalize` writes that view back, keeping only whether the path
starts at the root.

Correspondence:
  `normalize_directory` ↔ `normalize`
-/

namespace SpillStorage

structure Path where
  bytes : List UInt8
  deriving DecidableEq, Repr

namespace Path

def slash : UInt8 := 0x2f

def dot : UInt8 := 0x2e

def ofString (s : String) : Path := ⟨s.toByteArray.data.toList⟩

def toByteArray (p : Path) : ByteArray := ⟨⟨p.bytes⟩⟩

/-- The path as text, if its bytes are UTF-8. -/
def text? (p : Path) : Option String := String.fromUTF8? p.toByteArray

/-- The path between quotes, in visible characters. -/
def quoted (p : Path) : String := Text.quoted p.toByteArray

/-- The stretches of a byte string between the separators; there is one more than separators. -/
def split (separator : UInt8) : List UInt8 → List (List UInt8)
  | [] => [[]]
  | b :: rest =>
    if b = separator then [] :: split separator rest
    else
      match split separator rest with
      | [] => [[b]]
      | piece :: pieces => (b :: piece) :: pieces

/-- The pieces with the separator between neighbours. -/
def unsplit (separator : UInt8) : List (List UInt8) → List UInt8
  | [] => []
  | [piece] => piece
  | piece :: pieces => piece ++ separator :: unsplit separator pieces

/-- The path starts at the root. -/
def isAbsolute (p : Path) : Bool := p.bytes.head? == some slash

/-- Where temporaries go, unless the system wants them elsewhere. -/
def usualTemporaries : Path := ofString "/tmp"

/-- A component that names a directory entry or a parent. -/
def isProper (component : List UInt8) : Bool := component != [] && component != [dot]

/-- The components that name an entry or a parent, in order. -/
def components (p : Path) : List (List UInt8) := (split slash p.bytes).filter isProper

/-- The path rebuilt from its root and its components alone. -/
def normalize (p : Path) : Path :=
  ⟨(if p.isAbsolute then [slash] else []) ++ unsplit slash p.components⟩

/-- The path of `name` inside the directory `p`. -/
def child (p : Path) (name : List UInt8) : Path :=
  ⟨if p.bytes = [] ∨ p.bytes.getLast? = some slash then p.bytes ++ name
    else p.bytes ++ slash :: name⟩

end Path

end SpillStorage
