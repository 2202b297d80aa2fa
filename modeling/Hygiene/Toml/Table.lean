import Hygiene.Toml.Node

/-!
# Building tables

What a line of a document may add to what the lines before it have built. A dotted key stores one
value and may pass through tables that only paths have brought about; a header opens a table that no
line has defined yet, or one more element of an array of tables. A value written in brackets or
braces is complete and is never added to, and no name is defined twice.
-/

namespace Hygiene.Toml.Entries

def add (entries : Entries) (key : Key) (value : Node) : Entries := entries ++ [(key, value)]

def assign (value : Node) : List Key → Entries → Option Entries
  | [], _ => none
  | [key], entries =>
    if (entries.get? key.name).isSome then none else some (entries.add key value)
  | key :: path, entries =>
    match entries.get? key.name with
    | none =>
      (assign value path []).map fun inner => entries.add key (.table key.place .dotted inner)
    | some (.table place origin inner) =>
      if origin = .dotted ∨ origin = .implied then
        (assign value path inner).map fun inner =>
          entries.replace key.name (.table place origin inner)
      else none
    | some _ => none

/-- Change the table that the path of a header leads to. Tables on the way that are not there yet
are implied; of an array of tables the last element is meant. -/
def within (change : Entries → Option Entries) : List Key → Entries → Option Entries
  | [], entries => change entries
  | key :: path, entries =>
    match entries.get? key.name with
    | none =>
      (within change path []).map fun inner => entries.add key (.table key.place .implied inner)
    | some (.table place origin inner) =>
      if origin = .inline then none
      else
        (within change path inner).map fun inner =>
          entries.replace key.name (.table place origin inner)
    | some (.array place .headers items) =>
      match items.getLast? with
      | some (.table last origin inner) =>
        (within change path inner).map fun inner =>
          let items := items.dropLast ++ [.table last origin inner]
          entries.replace key.name (.array place .headers items)
      | _ => none
    | some _ => none

def openTable (key : Key) (place : Text.Span) (entries : Entries) : Option Entries :=
  match entries.get? key.name with
  | none => some (entries.add key (.table place .header []))
  | some (.table _ .implied inner) =>
    some (entries.replace key.name (.table place .header inner))
  | some _ => none

/-- Open one more element of an array of tables. -/
def openElement (key : Key) (place : Text.Span) (entries : Entries) : Option Entries :=
  let element := Node.table place .header []
  match entries.get? key.name with
  | none => some (entries.add key (.array place .headers [element]))
  | some (.array first .headers items) =>
    some (entries.replace key.name (.array first .headers (items ++ [element])))
  | some _ => none

end Hygiene.Toml.Entries
