import Hygiene.Text.Digit
import Hygiene.Toml.Cursor

/-!
# Strings

The four kinds of TOML string. Basic strings stand in double quotes and know escapes, literal
strings stand in single quotes and do not; three quotes open the kind that may run over several
lines. A line end right behind three opening quotes is dropped, a backslash at the end of a line
swallows the white space up to the next visible character, and up to two quotes may stand before
three closing ones.
-/

namespace Hygiene.Toml

namespace Quotation

/-- The character with the number that `count` hexadecimal digits give. Surrogates and numbers past
the last character have none. -/
def numbered (count : Nat) : Rule Char := fun c =>
  let digits := c.rest.take count
  if digits.length = count then do
    let values ← digits.mapM Text.hexDigit?
    let code := Text.ofDigits 16 values
    if Nat.isValidChar code then some (Char.ofNat code, c.advance count) else none
  else none

/-- The character that an escape behind a backslash stands for. -/
def escaped : Rule Char := fun c =>
  match c.peek? with
  | some 'b' => some ('\x08', c.advance 1)
  | some 't' => some ('\t', c.advance 1)
  | some 'n' => some ('\n', c.advance 1)
  | some 'f' => some ('\x0C', c.advance 1)
  | some 'r' => some ('\r', c.advance 1)
  | some 'e' => some ('\x1B', c.advance 1)
  | some '"' => some ('"', c.advance 1)
  | some '\\' => some ('\\', c.advance 1)
  | some 'x' => numbered 2 (c.advance 1)
  | some 'u' => numbered 4 (c.advance 1)
  | some 'U' => numbered 8 (c.advance 1)
  | _ => none

/-- Behind blanks, a line end, and all white space after it: what a backslash at the end of a line
swallows. -/
def continuation? (c : Cursor) : Option Cursor :=
  c.skipBlanks.newline?.map Cursor.skipSpace

/-- The rest of a basic string, behind the characters already read, last one first. The bound is the
number of steps at most. -/
def basicFrom : (bound : Nat) → List Char → Rule String
  | 0, _, _ => none
  | bound + 1, done, c =>
    match c.peek? with
    | none => none
    | some '"' => some (String.ofList done.reverse, c.advance 1)
    | some '\\' =>
      match escaped (c.advance 1) with
      | none => none
      | some (ch, c) => basicFrom bound (ch :: done) c
    | some ch => if Cursor.isVisible ch then basicFrom bound (ch :: done) (c.advance 1) else none

/-- Close a string of several lines at a run of quotes: three of them end it, and as many as come
before these, at most two, belong to it. -/
def closing? (quote : Char) (done : List Char) : Rule String := fun c =>
  let count := (c.run (· == quote)).1.length
  if count < 3 then none
  else
    let own := min (count - 3) 2
    some (String.ofList (done.reverse ++ List.replicate own quote), c.advance (own + 3))

def basicLinesFrom : (bound : Nat) → List Char → Rule String
  | 0, _, _ => none
  | bound + 1, done, c =>
    match Cursor.newline c with
    | some (cs, c) => basicLinesFrom bound (cs.reverse ++ done) c
    | none =>
      match c.peek? with
      | none => none
      | some '"' =>
        match closing? '"' done c with
        | some closed => some closed
        | none => basicLinesFrom bound ('"' :: done) (c.advance 1)
      | some '\\' =>
        match continuation? (c.advance 1) with
        | some c => basicLinesFrom bound done c
        | none =>
          match escaped (c.advance 1) with
          | none => none
          | some (ch, c) => basicLinesFrom bound (ch :: done) c
      | some ch =>
        if Cursor.isVisible ch then basicLinesFrom bound (ch :: done) (c.advance 1) else none

def literal : Rule String := fun c =>
  let (cs, c) := c.run fun ch => Cursor.isVisible ch && ch != '\''
  (c.expect ['\'']).map fun c => (String.ofList cs, c)

def literalLinesFrom : (bound : Nat) → List Char → Rule String
  | 0, _, _ => none
  | bound + 1, done, c =>
    match Cursor.newline c with
    | some (cs, c) => literalLinesFrom bound (cs.reverse ++ done) c
    | none =>
      match c.peek? with
      | none => none
      | some '\'' =>
        match closing? '\'' done c with
        | some closed => some closed
        | none => literalLinesFrom bound ('\'' :: done) (c.advance 1)
      | some ch =>
        if Cursor.isVisible ch then literalLinesFrom bound (ch :: done) (c.advance 1) else none

/-- Behind a line end, if one comes next. -/
def dropNewline (c : Cursor) : Cursor := c.newline?.getD c

end Quotation

open Quotation in
/-- A string that stays on one line, as keys allow it. -/
def lineString : Rule String := fun c =>
  match c.peek? with
  | some '"' => basicFrom (c.rest.length + 1) [] (c.advance 1)
  | some '\'' => literal (c.advance 1)
  | _ => none

open Quotation in
def anyString : Rule String := fun c =>
  match c.expect ['"', '"', '"'] with
  | some c => basicLinesFrom (c.rest.length + 1) [] (dropNewline c)
  | none =>
    match c.expect ['\'', '\'', '\''] with
    | some c => literalLinesFrom (c.rest.length + 1) [] (dropNewline c)
    | none => lineString c

end Hygiene.Toml
