import Hygiene.Text.Numeral
import Hygiene.Text.Quoted
import Hygiene.Value

/-!
# The texts of a value

`Value.text` is how a value reads in generated code and in answers: words for `nil` and the
booleans, decimal integers, quoted strings, a vector in brackets and a list in parentheses, elements
one space apart. `Value.debug` names the kind of every part instead.
-/

namespace Hygiene.Value

mutual

/-- A value as it reads in code. -/
def text : Value → String
  | nil => "nil"
  | bool true => "true"
  | bool false => "false"
  | int n => Text.decimal n.toInt
  | str s => Text.quoted s
  | vector items => "[" ++ " ".intercalate (texts items) ++ "]"
  | list items => "(" ++ " ".intercalate (texts items) ++ ")"

def texts : List Value → List String
  | [] => []
  | v :: vs => text v :: texts vs

end

mutual

/-- A value with the kind of each part spelled out. -/
def debug : Value → String
  | nil => "Nil"
  | bool true => "Bool(true)"
  | bool false => "Bool(false)"
  | int n => "Int(" ++ Text.decimal n.toInt ++ ")"
  | str s => "Str(" ++ Text.quoted s ++ ")"
  | vector items => "Vector([" ++ ", ".intercalate (debugs items) ++ "])"
  | list items => "List([" ++ ", ".intercalate (debugs items) ++ "])"

def debugs : List Value → List String
  | [] => []
  | v :: vs => debug v :: debugs vs

end

theorem texts_eq_map (vs : List Value) : texts vs = vs.map text := by
  induction vs with
  | nil => rfl
  | cons v vs ih => rw [texts, ih, List.map_cons]

/-- The debug text of a bare sequence of values. -/
def debugList (vs : List Value) : String :=
  "[" ++ ", ".intercalate (debugs vs) ++ "]"

end Hygiene.Value
