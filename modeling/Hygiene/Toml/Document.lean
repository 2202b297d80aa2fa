import Hygiene.Toml.Quotation
import Hygiene.Toml.Scalar
import Hygiene.Toml.Table

/-!
# Documents

`Toml.read` turns a text into the entries of its root table, or finds that it is no TOML 1.1
document. A document is a sequence of statements, one a line: headers, which say where the following
lines belong, and assignments. Arrays and inline tables may run over several lines, hold comments
and end in a comma; they are nested at most `maxDepth` deep.
-/

namespace Hygiene.Toml

/-- How deep arrays and inline tables may be nested. -/
def maxDepth : Nat := 80

/-- Whether a character may stand in a key without quotes. -/
def isBareKeyChar (ch : Char) : Bool := ch.isAlphanum || ch == '_' || ch == '-'

def simpleKey : Rule Key := fun c =>
  match lineString c with
  | some (name, after) => some (⟨name, c.spanTo after⟩, after)
  | none =>
    let (cs, after) := c.run isBareKeyChar
    if cs.isEmpty then none else some (⟨String.ofList cs, c.spanTo after⟩, after)

/-- The parts of a key with points between them. The bound is the number of parts at most. -/
def keyPath : (bound : Nat) → Rule (List Key)
  | 0, _ => none
  | bound + 1, c => do
    let (key, c) ← simpleKey c
    match c.skipBlanks.expect ['.'] with
    | none => some ([key], c)
    | some c =>
      let (path, c) ← keyPath bound c.skipBlanks
      some (key :: path, c)

def dottedKey : Rule (List Key) := fun c => keyPath (c.rest.length + 1) c

/-- A bare word. A time may follow its date behind one space. -/
def word : Rule Node := fun c =>
  let (cs, after) := c.run Scalar.isWordChar
  let time? :=
    match after.expect [' '] with
    | some next =>
      if Scalar.isDate cs && next.peek?.any Char.isDigit then
        some (next.run Scalar.isWordChar)
      else none
    | none => none
  match time? with
  | some (time, after) =>
    (Scalar.node? (c.spanTo after) (cs ++ ' ' :: time)).map fun node => (node, after)
  | none => (Scalar.node? (c.spanTo after) cs).map fun node => (node, after)

mutual

/-- A value, with room for `depth` more levels inside. The bound is the number of steps at most. -/
def value : (bound depth : Nat) → Rule Node
  | 0, _, _ => none
  | bound + 1, depth, c =>
    match c.peek? with
    | some '[' =>
      match depth with
      | 0 => none
      | depth + 1 => items bound depth c [] (c.advance 1)
    | some '{' =>
      match depth with
      | 0 => none
      | depth + 1 => fields bound depth c [] (c.advance 1)
    | some '"' | some '\'' =>
      (anyString c).map fun (s, after) => (.string (c.spanTo after) s, after)
    | _ => word c

/-- The rest of an array that opened at `start`, behind the items already read, last one first. -/
def items : (bound depth : Nat) → (start : Cursor) → (done : List Node) → Rule Node
  | 0, _, _, _, _ => none
  | bound + 1, depth, start, done, c =>
    let c := c.skipTrivia
    match c.expect [']'] with
    | some after => some (.array (start.spanTo after) .inline done.reverse, after)
    | none => do
      let (item, c) ← value bound depth c
      let c := c.skipTrivia
      match c.expect [','] with
      | some c => items bound depth start (item :: done) c
      | none =>
        let after ← c.expect [']']
        some (.array (start.spanTo after) .inline (item :: done).reverse, after)

/-- The rest of an inline table that opened at `start`, behind the entries already read. -/
def fields : (bound depth : Nat) → (start : Cursor) → (done : Entries) → Rule Node
  | 0, _, _, _, _ => none
  | bound + 1, depth, start, done, c =>
    let c := c.skipTrivia
    match c.expect ['}'] with
    | some after => some (.table (start.spanTo after) .inline done, after)
    | none => do
      let (path, c) ← dottedKey c
      let c ← c.skipBlanks.expect ['=']
      let (item, c) ← value bound depth c.skipBlanks
      let done ← done.assign item path
      let c := c.skipTrivia
      match c.expect [','] with
      | some c => fields bound depth start done c
      | none =>
        let after ← c.expect ['}']
        some (.table (start.spanTo after) .inline done, after)

end

inductive Statement where
  /-- A header: the lines that follow belong to this table. -/
  | table (path : List Key) (place : Text.Span)
  /-- A header in double brackets: the lines that follow belong to a new element. -/
  | element (path : List Key) (place : Text.Span)
  | assignment (path : List Key) (value : Node)

/-- A key between brackets, single or double. -/
def bracketed (left right : List Char) : Rule (List Key) := fun c => do
  let c ← c.expect left
  let (path, c) ← dottedKey c.skipBlanks
  let c ← c.skipBlanks.expect right
  some (path, c)

/-- A statement, without the end of its line. -/
def statement : Rule Statement := fun c =>
  if (c.expect ['[', '[']).isSome then
    (bracketed ['[', '['] [']', ']'] c).map fun (path, after) =>
      (.element path (c.spanTo after), after)
  else if (c.expect ['[']).isSome then
    (bracketed ['['] [']'] c).map fun (path, after) => (.table path (c.spanTo after), after)
  else do
    let (path, c) ← dottedKey c
    let c ← c.skipBlanks.expect ['=']
    let (node, c) ← value (2 * c.rest.length + 2) maxDepth c.skipBlanks
    some (.assignment path node, c)

/-- A document as far as it has been read. -/
structure Reading where
  root : Entries := []
  /-- The path of the header that the current lines belong to. -/
  current : List Key := []

namespace Reading

/-- Open what a header names, by way of the tables on its path. -/
def openAt (r : Reading) (path : List Key)
    (opening : Key → Entries → Option Entries) : Option Reading := do
  let key ← path.getLast?
  let root ← r.root.within (opening key) path.dropLast
  some ⟨root, path⟩

def apply (r : Reading) : Statement → Option Reading
  | .table path place => r.openAt path fun key => Entries.openTable key place
  | .element path place => r.openAt path fun key => Entries.openElement key place
  | .assignment path node => do
    let root ← r.root.within (Entries.assign node path) r.current
    some { r with root }

/-- Read statements up to the end of the text. The bound is their number at most. -/
def finish : (bound : Nat) → Reading → Cursor → Option Entries
  | 0, _, _ => none
  | bound + 1, r, c =>
    let c := c.skipTrivia
    if c.rest.isEmpty then some r.root
    else do
      let (s, c) ← statement c
      let c ← c.lineEnd?
      let r ← r.apply s
      finish bound r c

end Reading

/-- The entries of the root table of a document. -/
def read (text : String) : Option Entries :=
  let c := Cursor.start text
  Reading.finish (c.rest.length + 1) {} c

end Hygiene.Toml
