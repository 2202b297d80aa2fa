import Hygiene.Fault
import Hygiene.Settings.Config
import Hygiene.Text.Blank

/-!
# Validation of settings

A configuration can be well formed and still ask for the impossible: an indent outside 1 to 8
spaces, or no width at all. `Config.validate` refuses it and points at the key in the source text,
the indent before the width. The key is looked for line by line (`findKey`): the first line that
starts, behind any white space, with the key and an equals sign is the one. A key that is written in
another way (quoted, behind a table's name, inside braces) is not found, and the fault then has no
place.
-/

namespace Hygiene

namespace Settings

/-- The lines of a text, each with the line end that closes it. -/
def lines : List Char → List (List Char)
  | [] => []
  | ch :: rest =>
    if ch = '\n' then [ch] :: lines rest
    else
      match lines rest with
      | [] => [[ch]]
      | line :: others => (ch :: line) :: others

/-- Whether a line, its white space in front removed, assigns to a key. -/
def assignsTo (key line : List Char) : Bool :=
  key.isPrefixOf line && ((line.drop key.length).dropWhile Text.isBlank).head? == some '='

/-- The place of a key in the first line that assigns to it; the lines start at byte `offset`. -/
def findKeyFrom (key : List Char) : (offset : Nat) → List (List Char) → Option Text.Span
  | _, [] => none
  | offset, line :: rest =>
    if assignsTo key (line.dropWhile Text.isBlank) then
      some ⟨offset + Text.byteLength (line.takeWhile Text.isBlank), Text.byteLength key⟩
    else findKeyFrom key (offset + Text.byteLength line) rest

def findKey (source key : String) : Option Text.Span :=
  findKeyFrom key.toList 0 (lines source.toList)

end Settings

/-- Refuse settings that are out of bounds, pointing into the text that they came from. -/
def Config.validate (config : Config) (source file : String) : Except Fault Unit :=
  if config.render.indent < 1 ∨ 8 < config.render.indent then
    .error (.invalid file (Settings.findKey source "indent")
      "render indent must be between 1 and 8 spaces")
  else if config.render.width = 0 then
    .error (.invalid file (Settings.findKey source "width")
      "render width must be greater than zero")
  else .ok ()

theorem Config.validate_eq_ok_iff {config : Config} {source file : String} :
    config.validate source file = .ok () ↔
      1 ≤ config.render.indent ∧ config.render.indent ≤ 8 ∧ 0 < config.render.width := by
  unfold Config.validate
  split
  next h => exact ⟨fun h' => (nomatch h'), fun h' => by omega⟩
  next h =>
    split
    next h' => exact ⟨fun h'' => (nomatch h''), fun h'' => by omega⟩
    next h' => exact ⟨fun _ => by omega, fun _ => rfl⟩

end Hygiene
