import SpillStorage.Disk
import SpillStorage.Toml.Document
import SpillStorage.Value.Forms

/-!
Settings from a TOML text and from a file that holds one. What is read is validated before it is
answered; a text that is no TOML, or whose fields have other types, is malformed.

Correspondence:
  `TempSpaceConfig::from_toml_str` ↔ `ofToml`
  `TempSpaceConfig::load`          ↔ `load`
-/

namespace SpillStorage.Settings

/-- The settings, if they make sense. -/
def validated (s : Settings) : Except Failure Settings :=
  match s.validate with
  | .ok () => .ok s
  | .error f => .error f

/-- The settings that a TOML text gives. -/
def ofToml (text : String) (temporaries : Path := Path.usualTemporaries) :
    Except Failure Settings :=
  match (Toml.parse? text).bind (Settings.ofValue? true temporaries) with
  | some s => s.validated
  | none => .error .malformedSettings

/-- The settings that the file at a path gives. -/
def load (d : Disk) (path : Path) : Except Failure Settings :=
  match d.contentAt path with
  | .error cause => .error (.fileSystem ⟨.openFile, path, cause, none⟩)
  | .ok content =>
    match String.fromUTF8? ⟨⟨content⟩⟩ with
    | some text => ofToml text d.temporaries
    | none => .error (.fileSystem ⟨.openFile, path, .notUtf8, none⟩)

end SpillStorage.Settings
