import Hygiene.Text.Span

/-!
# Reading positions

A `Cursor` is what is still to be read of a text, together with the number of UTF-8 bytes before it.
The rules of the grammar are functions from a cursor to what they have read and the cursor behind
it, and fail with `none`; a document with a fault has no contents, so where it fails is not kept.
-/

namespace Hygiene.Toml

structure Cursor where
  rest : List Char
  offset : Nat

abbrev Rule (α : Type) := Cursor → Option (α × Cursor)

namespace Cursor

/-- The start of a text. A byte order mark is passed over, and its bytes count. -/
def start (text : String) : Cursor :=
  match text.toList with
  | '\uFEFF' :: rest => ⟨rest, 3⟩
  | rest => ⟨rest, 0⟩

def peek? (c : Cursor) : Option Char := c.rest.head?

/-- Behind the next `n` characters. -/
def advance (c : Cursor) (n : Nat) : Cursor :=
  ⟨c.rest.drop n, c.offset + Text.byteLength (c.rest.take n)⟩

/-- The stretch from one position to a later one. -/
def spanTo (start stop : Cursor) : Text.Span := .between start.offset stop.offset

/-- The longest run of characters of a class, and the cursor behind it. -/
def run (c : Cursor) (isIn : Char → Bool) : List Char × Cursor :=
  let cs := c.rest.takeWhile isIn
  (cs, ⟨c.rest.dropWhile isIn, c.offset + Text.byteLength cs⟩)

/-- Behind the given characters, if they come next. -/
def expect (c : Cursor) (cs : List Char) : Option Cursor :=
  if cs.isPrefixOf c.rest then some (c.advance cs.length) else none

def skipBlanks (c : Cursor) : Cursor := (c.run fun ch => ch == ' ' || ch == '\t').2

/-- A line end, with or without a carriage return. -/
def newline : Rule (List Char) := fun c =>
  match c.expect ['\n'] with
  | some after => some (['\n'], after)
  | none => (c.expect ['\r', '\n']).map fun after => (['\r', '\n'], after)

def newline? (c : Cursor) : Option Cursor := (newline c).map Prod.snd

/-- Whether a character may stand in a comment or a literal string: no control but the tab. -/
def isVisible (ch : Char) : Bool :=
  ch == '\t' || (0x20 ≤ ch.toNat && ch.toNat ≠ 0x7F)

def skipComment (c : Cursor) : Cursor :=
  match c.expect ['#'] with
  | some c => (c.run isVisible).2
  | none => c

/-- Behind blanks and a comment up to a line end or the end of the text, which must follow. -/
def lineEnd? (c : Cursor) : Option Cursor :=
  let c := c.skipBlanks.skipComment
  if c.rest.isEmpty then some c else c.newline?

/-- Behind any blanks and line ends, and comments too where `comments` says so. The bound is the
number of lines at most. -/
def skipLines (comments : Bool) : (bound : Nat) → Cursor → Cursor
  | 0, c => c
  | bound + 1, c =>
    let c := if comments then c.skipBlanks.skipComment else c.skipBlanks
    match c.newline? with
    | some c => skipLines comments bound c
    | none => c

def skipSpace (c : Cursor) : Cursor := skipLines false (c.rest.length + 1) c

/-- Behind any blanks, comments and line ends. -/
def skipTrivia (c : Cursor) : Cursor := skipLines true (c.rest.length + 1) c

end Cursor

end Hygiene.Toml
