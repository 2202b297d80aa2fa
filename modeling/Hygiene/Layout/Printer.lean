import Hygiene.Layout.Numbering
import Hygiene.Template.Expr
import Hygiene.Value.Printing

/-!
# Printing expressions

`Expr.flat` writes an expression on one line. `Expr.pretty` lays it out from a given column within a
given width: an expression that fits behind its column stays on one line, and one that does not is
broken, each argument on a line of its own, indented by a fixed step; the bindings of a `letIn` stand
under each other. A single word is never broken. Columns and lengths are counted in UTF-8 bytes.

Both hand on the table of canonical numbers from left to right. To see whether an expression fits it
is put on one line first, so by the time it is broken every identifier in it has its number already.

`Expr.render` prints an expression under given options, and `Expr.text` is its one-line text with
the numbers that identifiers were drawn with.
-/

namespace Hygiene

/-- How code is printed. -/
structure Layout where
  indent : Nat := 2
  /-- The width beyond which a form is broken. -/
  width : Nat := 80
  numbering : Numbering := .canonical
  deriving DecidableEq

namespace Layout

/-- The width that nothing exceeds: columns are counted up to here and no further. -/
def unlimited : Nat := UInt64.size - 1

/-- One line, with the numbers that identifiers were drawn with. -/
def debug : Layout := { width := unlimited, numbering := .global }

/-- Whether a text that starts at a column ends within the width. -/
def fits (layout : Layout) (column : Nat) (text : String) : Bool :=
  min (column + text.utf8ByteSize) unlimited ≤ layout.width

/-- A line break, and the spaces that lead to a column. -/
def newline (column : Nat) : String :=
  "\n" ++ String.ofList (List.replicate column ' ')

/-- How far the bindings of a `letIn` stand to the right of its opening parenthesis. -/
def bindingOffset : Nat := "(let (".utf8ByteSize

@[simp] theorem bindingOffset_eq : bindingOffset = 6 := by decide

theorem fits_of_unlimited {layout : Layout} (h : layout.width = unlimited) (column : Nat)
    (text : String) : layout.fits column text = true := by
  simp only [fits, decide_eq_true_eq]
  omega

end Layout

/-- A literal as it stands in code. A list is quoted, since without the quote it would be a call. -/
def Value.literal (v : Value) : String :=
  match v with
  | .list _ => "'" ++ v.text
  | _ => v.text

/-- A binder as it stands in code, and the table after showing it. -/
def Binder.label (numbering : Numbering) (numbers : Numbers) : Binder → String × Numbers
  | name n => (n, numbers)
  | ident i => numbering.label i numbers

namespace Expr

open Layout (newline bindingOffset)

mutual

/-- An expression on one line, and the table of canonical numbers after it. -/
def flat (numbering : Numbering) : Expr → Numbers → String × Numbers
  | lit v, numbers => (v.literal, numbers)
  | name n, numbers => (n, numbers)
  | ref i, numbers => numbering.label i numbers
  | call f args, numbers =>
    let (args, numbers) := flatArgs numbering args numbers
    ("(" ++ f ++ args ++ ")", numbers)
  | seq items, numbers =>
    let (items, numbers) := flatArgs numbering items numbers
    ("(do" ++ items ++ ")", numbers)
  | cond c t e, numbers =>
    let (c, numbers) := flat numbering c numbers
    let (t, numbers) := flat numbering t numbers
    let (e, numbers) := flat numbering e numbers
    ("(if " ++ " ".intercalate [c, t, e] ++ ")", numbers)
  | letIn bindings body, numbers =>
    let (bindings, numbers) := flatBindings numbering bindings numbers
    let (body, numbers) := flat numbering body numbers
    ("(let (" ++ " ".intercalate bindings ++ ") " ++ body ++ ")", numbers)

/-- Arguments on one line, each behind a space. -/
def flatArgs (numbering : Numbering) : List Expr → Numbers → String × Numbers
  | [], numbers => ("", numbers)
  | e :: es, numbers =>
    let (first, numbers) := flat numbering e numbers
    let (others, numbers) := flatArgs numbering es numbers
    (" " ++ first ++ others, numbers)

/-- Bindings on one line: each binder, then its value. -/
def flatBindings (numbering : Numbering) :
    List (Binder × Expr) → Numbers → List String × Numbers
  | [], numbers => ([], numbers)
  | (b, e) :: rest, numbers =>
    let (binder, numbers) := b.label numbering numbers
    let (value, numbers) := flat numbering e numbers
    let (others, numbers) := flatBindings numbering rest numbers
    (("(" ++ binder ++ " " ++ value ++ ")") :: others, numbers)

end

mutual

/-- An expression laid out from a column, and the table of canonical numbers after it. A line that
turns out too long is given up, but the numbers handed out on it stay. -/
def pretty (layout : Layout) : Expr → (column : Nat) → Numbers → String × Numbers
  | e, column, numbers =>
    let (line, numbers) := flat layout.numbering e numbers
    if layout.fits column line then (line, numbers)
    else
      let inner := column + layout.indent
      match e with
      | lit _ | name _ | ref _ => (line, numbers)
      | call f args =>
        let (args, numbers) := prettyArgs layout args inner numbers
        ("(" ++ f ++ args ++ ")", numbers)
      | seq items =>
        let (items, numbers) := prettyArgs layout items inner numbers
        ("(do" ++ items ++ ")", numbers)
      | cond c t e =>
        let (c, numbers) := pretty layout c inner numbers
        let (t, numbers) := pretty layout t inner numbers
        let (e, numbers) := pretty layout e inner numbers
        ("(if" ++ newline inner ++ c ++ newline inner ++ t ++ newline inner ++ e ++ ")", numbers)
      | letIn bindings body =>
        let outer := column + bindingOffset
        let (bindings, numbers) := prettyBindings layout bindings outer numbers
        let (body, numbers) := pretty layout body inner numbers
        ("(let (" ++ (newline outer).intercalate bindings ++ ")" ++ newline inner ++ body ++ ")",
          numbers)

/-- Arguments, each on a line of its own from the given column. -/
def prettyArgs (layout : Layout) : List Expr → (column : Nat) → Numbers → String × Numbers
  | [], _, numbers => ("", numbers)
  | e :: es, column, numbers =>
    let (first, numbers) := pretty layout e column numbers
    let (others, numbers) := prettyArgs layout es column numbers
    (newline column ++ first ++ others, numbers)

/-- Each binding laid out from the given column; its value starts behind the binder. -/
def prettyBindings (layout : Layout) :
    List (Binder × Expr) → (column : Nat) → Numbers → List String × Numbers
  | [], _, numbers => ([], numbers)
  | (b, e) :: rest, column, numbers =>
    let (binder, numbers) := b.label layout.numbering numbers
    let (value, numbers) := pretty layout e (column + binder.utf8ByteSize + 2) numbers
    let (others, numbers) := prettyBindings layout rest column numbers
    (("(" ++ binder ++ " " ++ value ++ ")") :: others, numbers)

end

def render (e : Expr) (layout : Layout) : String :=
  (e.pretty layout 0 {}).1

/-- An expression on one line, with the numbers that identifiers were drawn with. -/
def text (e : Expr) : String := e.render .debug

end Expr

end Hygiene
