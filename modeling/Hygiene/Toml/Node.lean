import Hygiene.Text.Span

/-!
# The contents of a TOML document

A document is a tree of nodes, each with the place where it is written. Dates and times are checked
while reading but their fields are not kept. Tables and arrays remember what brought them about,
since that decides what later lines may add to them.
-/

namespace Hygiene.Toml

/-- A key and the place where it is written, quotes included. -/
structure Key where
  name : String
  place : Text.Span

/-- A number with a point or an exponent, as written. -/
inductive Floating where
  | nan
  | infinite (negative : Bool)
  /-- `digits * 10 ^ exponent`, with its sign. -/
  | decimal (negative : Bool) (digits : Nat) (exponent : Int)

/-- What brought a table about. -/
inductive TableOrigin where
  /-- Braces in a value; complete as it stands. -/
  | inline
  | header
  /-- The path of a header further down. -/
  | implied
  | dotted
  deriving DecidableEq

/-- What brought an array about. -/
inductive ArrayOrigin where
  /-- Brackets in a value; complete as it stands. -/
  | inline
  /-- Header lines in double brackets, one element each. -/
  | headers
  deriving DecidableEq

/-- A value and the place where it is written. A table that no braces enclose has the place of the
header or key that brought it about. -/
inductive Node where
  | string (place : Text.Span) (s : String)
  | integer (place : Text.Span) (n : Int)
  | floating (place : Text.Span) (r : Floating)
  | boolean (place : Text.Span) (b : Bool)
  | moment (place : Text.Span)
  | array (place : Text.Span) (origin : ArrayOrigin) (items : List Node)
  | table (place : Text.Span) (origin : TableOrigin) (entries : List (Key × Node))

/-- The entries of a table, in the order in which they came in. -/
abbrev Entries := List (Key × Node)

def Node.place : Node → Text.Span
  | string place _ | integer place _ | floating place _ | boolean place _ | moment place
  | array place _ _ | table place _ _ => place

def Entries.get? (entries : Entries) (name : String) : Option Node :=
  (entries.find? fun e => e.1.name == name).map Prod.snd

def Entries.replace (entries : Entries) (name : String) (value : Node) : Entries :=
  entries.map fun e => if e.1.name == name then (e.1, value) else e

end Hygiene.Toml
