import Hygiene.Decimal.Shortest
import Hygiene.Fault
import Hygiene.Settings.Config
import Hygiene.Text.Numeral
import Hygiene.Text.Quoted
import Hygiene.Toml.Document

/-!
# Reading settings

From the entries of a TOML document to a `Config`. The root knows one field, `render`, and that has
three: `indent`, a number of 8 bits, `width`, a number of 64 bits, and `numbering`, one of two
words. `render` may also be written as an array of the three values in that order, as many as are
wanted, and a numbering as a table whose only key is the word. Fields are looked at in the order of
their names, and the first one that does not fit is a `Misfit`, which says what was found, what was
expected, and where.
-/

namespace Hygiene.Settings

open Toml (Node Key Entries Floating)

/-- Why a document does not describe settings. -/
inductive Misfit where
  | unknownField (name : String) (known : List String)
  /-- A word that is none of those to choose from. -/
  | unknownVariant (name : String)
  | wrongType (found expected : String)
  | outOfRange (n : Int) (expected : String)
  /-- An integer that no type holds. -/
  | integerOverflow
  /-- A number that is finite as written and infinite as a value. -/
  | floatingOverflow
  | notAChoice
  | noChoice
  | manyChoices
  | filledTable
  | filledArray
  | notATable (found : String)

/-- Words in backquotes, with commas between them. -/
def listed (names : List String) : String :=
  ", ".intercalate (names.map fun n => "`" ++ n ++ "`")

def Misfit.message : Misfit → String
  | unknownField name [only] => "unknown field `" ++ name ++ "`, expected `" ++ only ++ "`"
  | unknownField name known => "unknown field `" ++ name ++ "`, expected one of " ++ listed known
  | unknownVariant name => "unknown variant `" ++ name ++ "`, expected `canonical` or `global`"
  | wrongType found expected => "invalid type: " ++ found ++ ", expected " ++ expected
  | outOfRange n expected =>
    "invalid value: integer `" ++ Text.decimal n ++ "`, expected " ++ expected
  | integerOverflow => "integer number overflowed"
  | floatingOverflow => "floating-point number overflowed"
  | notAChoice => "wanted string or table"
  | noChoice => "wanted exactly 1 element, found 0 elements"
  | manyChoices => "wanted exactly 1 element, more than 1 element"
  | filledTable => "expected empty table"
  | filledArray => "expected empty array"
  | notATable found => "expected table, found " ++ found

/-- A misfit and where it is. -/
structure Misplaced where
  misfit : Misfit
  place : Text.Span

/-- The text of a floating number as a value of 64 bits, unless it is too great for one. -/
def floatingText? : Floating → Option String
  | .nan => some "NaN"
  | .infinite negative => some (if negative then "-inf" else "inf")
  | .decimal negative digits exponent =>
    (Decimal.Binary.nearest digits exponent).map fun b =>
      if negative then "-" ++ b.positional else b.positional

/-- An integer in words: how many bits it needs decides how it is named. -/
def integerText? (n : Int) : Option String :=
  if -(Nat.pow 2 63 : Int) ≤ n ∧ n < Nat.pow 2 64 then some ("integer `" ++ Text.decimal n ++ "`")
  else if -(Nat.pow 2 127 : Int) ≤ n ∧ n < Nat.pow 2 127 then
    some ("integer `" ++ Text.decimal n ++ "` as i128")
  else if 0 ≤ n ∧ n < Nat.pow 2 128 then some ("integer `" ++ Text.decimal n ++ "` as u128")
  else none

/-- The misfit of a value where something else was expected. -/
def unexpected (node : Node) (expected : String) : Misfit :=
  match node with
  | .string _ s => .wrongType ("string " ++ Text.quoted s) expected
  | .integer _ n =>
    match integerText? n with
    | some text => .wrongType text expected
    | none => .integerOverflow
  | .floating _ r =>
    match floatingText? r with
    | some text => .wrongType ("floating point `" ++ text ++ "`") expected
    | none => .floatingOverflow
  | .boolean _ b => .wrongType ("boolean `" ++ (if b then "true" else "false") ++ "`") expected
  | .array .. => .wrongType "sequence" expected
  | .moment _ | .table .. => .wrongType "map" expected

/-- A number of a type that reaches up to `limit`. -/
def number (expected : String) (limit : Nat) (node : Node) : Except Misplaced Nat :=
  match node with
  | .integer place n =>
    if 0 ≤ n ∧ n ≤ limit then .ok n.toNat
    else if -(Nat.pow 2 63 : Int) ≤ n ∧ n < Nat.pow 2 64 then .error ⟨.outOfRange n expected, place⟩
    else .error ⟨unexpected node expected, place⟩
  | _ => .error ⟨unexpected node expected, node.place⟩

def indent (node : Node) : Except Misplaced Nat := number "u8" 255 node

def width (node : Node) : Except Misplaced Nat := number "usize" (UInt64.size - 1) node

def variant (name : String) (place : Text.Span) : Except Misplaced Numbering :=
  if name = "canonical" then .ok .canonical
  else if name = "global" then .ok .global
  else .error ⟨.unknownVariant name, place⟩

/-- The contents of a chosen word, which must be an empty table or array. -/
def noContents (node : Node) : Except Misplaced Unit :=
  match node with
  | .table _ _ [] | .array _ _ [] => .ok ()
  | .table place .. => .error ⟨.filledTable, place⟩
  | .array place .. => .error ⟨.filledArray, place⟩
  | .string place _ => .error ⟨.notATable "string", place⟩
  | .integer place _ => .error ⟨.notATable "integer", place⟩
  | .floating place _ => .error ⟨.notATable "float", place⟩
  | .boolean place _ => .error ⟨.notATable "boolean", place⟩
  | .moment place => .error ⟨.notATable "datetime", place⟩

/-- The numbering: a word, or a table whose only key is the word. -/
def numbering (node : Node) : Except Misplaced Numbering :=
  match node with
  | .string place s => variant s place
  | .table place _ [] => .error ⟨.noChoice, place⟩
  | .table _ _ [(key, contents)] => do
    let chosen ← variant key.name key.place
    noContents contents
    .ok chosen
  | .table place _ _ => .error ⟨.manyChoices, place⟩
  | _ => .error ⟨.notAChoice, node.place⟩

/-- The entries of a table in the order of their names. -/
def sorted (entries : Entries) : Entries :=
  entries.mergeSort fun a b => decide (a.1.name ≤ b.1.name)

/-- Read one field of `render` into the settings so far. -/
def renderField (layout : Layout) (field : Key × Node) : Except Misplaced Layout :=
  if field.1.name = "indent" then (indent field.2).map fun n => { layout with indent := n }
  else if field.1.name = "width" then (width field.2).map fun n => { layout with width := n }
  else if field.1.name = "numbering" then
    (numbering field.2).map fun n => { layout with numbering := n }
  else .error ⟨.unknownField field.1.name ["indent", "width", "numbering"], field.1.place⟩

/-- Read the values of `render` in order; those not given keep their defaults, and values behind the
third are not looked at. -/
def renderItems : List Node → Except Misplaced Layout
  | [] => .ok {}
  | first :: rest => do
    let layout : Layout := { indent := ← indent first }
    match rest with
    | [] => .ok layout
    | second :: rest =>
      let layout := { layout with width := ← width second }
      match rest with
      | [] => .ok layout
      | third :: _ => .ok { layout with numbering := ← numbering third }

def render (node : Node) : Except Misplaced Layout :=
  match node with
  | .table _ _ entries => (sorted entries).foldlM renderField {}
  | .array _ _ items => renderItems items
  | .moment place =>
    .error ⟨.unknownField "$__toml_private_datetime" ["indent", "width", "numbering"], place⟩
  | _ => .error ⟨unexpected node "struct RenderConfig", node.place⟩

/-- Read one field of the root into the settings so far. -/
def rootField (config : Config) (field : Key × Node) : Except Misplaced Config :=
  if field.1.name = "render" then
    (render field.2).map fun layout => { config with render := layout }
  else .error ⟨.unknownField field.1.name ["render"], field.1.place⟩

end Settings

open Settings in
/-- The settings that a text describes. A text that is no TOML document has no place to point at. -/
def Config.parse (source file : String) : Except Fault Config :=
  match Toml.read source with
  | none => .error (.malformed file none "not a TOML document")
  | some entries =>
    match (sorted entries).foldlM rootField {} with
    | .ok config => .ok config
    | .error ⟨misfit, place⟩ => .error (.malformed file (some place) misfit.message)

end Hygiene
