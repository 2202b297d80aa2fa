import Hygiene.Settings.Directory
import Hygiene.Settings.Reading
import Hygiene.Settings.Validation

/-!
# Loading a configuration

A configuration is read from a text and then validated, so a text that does not describe settings is
refused before any setting is looked at. Validation does not depend on how the text was read
(`Config.loadWith`); `Config.load` reads it as TOML, and `Config.ofFile` takes it from a file.
-/

namespace Hygiene.Config

/-- Read a configuration with a given reader and validate it. The name of the file is for messages
only. -/
def loadWith (read : String → String → Except Fault Config) (source file : String) :
    Except Fault Config :=
  match read source file with
  | .error fault => .error fault
  | .ok config =>
    match config.validate source file with
    | .error fault => .error fault
    | .ok () => .ok config

/-- Read and validate the configuration of a TOML text. -/
def load (source file : String) : Except Fault Config := loadWith parse source file

/-- Load the configuration in a file of a directory. -/
def ofFile (dir : Directory) (path : String) : Except Fault Config :=
  match dir.readText path with
  | .error failure => .error (.unreadable path failure)
  | .ok source => load source path

variable {read : String → String → Except Fault Config} {source file : String} {config : Config}

theorem loadWith_of_error {fault : Fault} (h : read source file = .error fault) :
    loadWith read source file = .error fault := by
  rw [loadWith, h]

theorem loadWith_of_ok (h : read source file = .ok config) :
    loadWith read source file = (config.validate source file).map fun _ => config := by
  rw [loadWith, h]
  cases hv : config.validate source file <;> simp only [hv] <;> rfl

theorem loadWith_eq_ok_iff :
    loadWith read source file = .ok config ↔
      read source file = .ok config ∧ config.validate source file = .ok () := by
  cases hr : read source file with
  | error fault => simp [loadWith_of_error hr]
  | ok parsed =>
    rw [loadWith_of_ok hr]
    cases hv : parsed.validate source file with
    | error fault =>
      refine ⟨fun h => (nomatch h), fun ⟨he, h⟩ => ?_⟩
      cases he
      rw [hv] at h
      cases h
    | ok _ =>
      refine ⟨fun h => ?_, fun ⟨he, _⟩ => he⟩
      cases h
      exact ⟨rfl, hv⟩

end Hygiene.Config
