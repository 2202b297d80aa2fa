import Hygiene.Text.Numeral
import Hygiene.Text.Span

/-!
# Faults

Everything that can go wrong outside evaluation, as causes. The wording is in three functions of the
cause: `message` says what happened, `code` is the stable name that tools match on, and `help`
suggests what to do. Reading a file has no code of its own, and only some causes have advice.
-/

namespace Hygiene

/-- Where every name has to be distinct. -/
inductive NameContext where
  | bindingSet
  | collectorScope
  deriving DecidableEq

/-- The context as messages name it. -/
def NameContext.text : NameContext → String
  | bindingSet => "binding set"
  | collectorScope => "collector scope"

/-- Why the contents of a file could not be had as text. -/
inductive ReadFailure where
  | notFound
  | isDirectory
  /-- A path goes on behind a file. -/
  | notDirectory
  | invalidData
  deriving DecidableEq

inductive Fault where
  | duplicateName (name : String) (context : NameContext)
  /-- A collector was asked for that its scope does not declare. -/
  | unknownCollector (name : String)
  /-- A traversal starts behind the end of its target. -/
  | range (start : Nat) (stop : Option Nat) (length : Nat)
  | negativeBound (value : Int64)
  /-- A value of this kind is no sequence. -/
  | unsupportedTarget (kind : String)
  | unreadable (path : String) (failure : ReadFailure)
  /-- A configuration text is not well formed, or its contents have the wrong shape. -/
  | malformed (file : String) (place : Option Text.Span) (reason : String)
  /-- A configuration is well formed and asks for something out of bounds. -/
  | invalid (file : String) (place : Option Text.Span) (complaint : String)
  deriving DecidableEq

namespace Fault

def message : Fault → String
  | duplicateName name context => "duplicate name '" ++ name ++ "' in " ++ context.text
  | unknownCollector name => "no collector named '" ++ name ++ "' in this scope"
  | range start _ length =>
    "traversal start " ++ start.repr ++ " is beyond the end of a target of length " ++ length.repr
  | negativeBound value => "traversal bound " ++ Text.decimal value.toInt ++ " is negative"
  | unsupportedTarget kind => "cannot traverse a value of kind '" ++ kind ++ "'"
  | unreadable path _ => "failed to read '" ++ path ++ "'"
  | malformed .. => "failed to parse hygen.toml"
  | invalid _ _ complaint => complaint

def code : Fault → Option String
  | duplicateName .. => some "hygen::duplicate_name"
  | unknownCollector .. => some "hygen::unknown_collector"
  | range .. | negativeBound .. => some "hygen::range"
  | unsupportedTarget .. => some "hygen::unsupported_target"
  | unreadable .. => none
  | malformed .. => some "hygen::parse_error"
  | invalid .. => some "hygen::validation_error"

def help : Fault → Option String
  | duplicateName name context =>
    some ("every name in a " ++ context.text ++ " must be distinct; rename the second '" ++ name
      ++ "'")
  | unknownCollector name => some ("declare '" ++ name ++ "' when creating the collector scope")
  | negativeBound _ => some "traversal bounds are zero-based offsets"
  | unsupportedTarget _ =>
    some "only index-addressable and link-sequential values can be traversed"
  | range .. | unreadable .. | malformed .. | invalid .. => none

/-- The labels that point into the source text: an invalid setting is labelled with the complaint
where its key was found. -/
def labels : Fault → List (String × Text.Span)
  | invalid _ (some place) complaint => [(complaint, place)]
  | _ => []

end Fault

end Hygiene
