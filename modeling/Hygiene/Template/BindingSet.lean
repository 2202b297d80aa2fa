import Hygiene.Fault
import Hygiene.Template.Rewriting

/-!
# Once-only bindings

A template may mention a caller's expression several times, and splicing it in at every mention
would run its effects as often. A `BindingSet` gives each expression an identifier instead.
`BindingSet.ofList` draws two identifiers per name, one that generated code binds and one that keys
the pairing of that binding with the expression, and refuses a name that is listed twice.
`BindingSet.wrap` then points the mentions in a template at the bound identifiers and puts one
`letIn` around it, which runs the expressions once each, in the order listed, before the body.

The second identifier of each pair never enters generated code. What a refused list has drawn stays
drawn.
-/

namespace Hygiene

/-- An expression paired with the identifier that holds its value. -/
structure Staged where
  /-- The identifier bound in generated code. -/
  binding : Ident
  form : Expr

/-- An ordered set of once-only bindings under distinct names. -/
structure BindingSet where
  /-- Each name with the identifier that keys its pairing. -/
  names : OrderedMap String Ident := {}
  /-- The pairings, in the order listed. -/
  staged : OrderedMap Ident Staged := {}

namespace BindingSet

/-- Add one binding under a new name, drawing its two identifiers. -/
def stage (set : BindingSet) (name : String) (form : Expr) (supply : Supply) :
    BindingSet × Supply :=
  let (binding, supply) := supply.fresh name
  let (staging, supply) := supply.fresh name
  (⟨set.names.insert name staging, set.staged.insert staging ⟨binding, form⟩⟩, supply)

/-- Add bindings one after another; the first name that is already there is refused. -/
def extend (set : BindingSet) :
    List (String × Expr) → Supply → Except Fault BindingSet × Supply
  | [], supply => (.ok set, supply)
  | (name, form) :: rest, supply =>
    if set.names.contains name then (.error (.duplicateName name .bindingSet), supply)
    else
      let (set, supply) := set.stage name form supply
      extend set rest supply

def ofList (bindings : List (String × Expr)) (supply : Supply) :
    Except Fault BindingSet × Supply :=
  extend {} bindings supply

def size (set : BindingSet) : Nat := set.names.size

def isEmpty (set : BindingSet) : Bool := set.names.isEmpty

def staging? (set : BindingSet) (name : String) : Option Ident := set.names.get? name

/-- The pairing of a name, found by way of its key. -/
def lookup? (set : BindingSet) (name : String) : Option Staged :=
  (set.staging? name).bind set.staged.get?

/-- The identifier that holds the value of a name in generated code. -/
def binding? (set : BindingSet) (name : String) : Option Ident :=
  (set.lookup? name).map Staged.binding

/-- Put the bindings around a body, in the order listed. -/
def emit (set : BindingSet) (body : Expr) : Expr :=
  .letIn (set.staged.values.map fun s => (.ident s.binding, s.form)) body

/-- Where each name of the set is to point. -/
def rewrites (set : BindingSet) : Rewrites :=
  .ofList <| set.names.entries.filterMap fun (name, staging) =>
    (set.staged.get? staging).map fun s => (name, s.binding)

/-- Wrap a template that mentions bindings by name. Names outside the set are left alone. -/
def wrap (set : BindingSet) (body : Expr) : Expr :=
  set.emit (body.substitute set.rewrites)

/-- What a template builder sees of a set: the bound identifier of a name. -/
structure Refs where
  ident? : String → Option Ident

/-- A reference to the binding of a name, if there is one. -/
def Refs.get? (refs : Refs) (name : String) : Option Expr :=
  (refs.ident? name).map .ref

/-- A reference to the binding of a name, or the name itself, for evaluation to resolve. -/
def Refs.name (refs : Refs) (name : String) : Expr :=
  (refs.get? name).getD (.name name)

def refs (set : BindingSet) : Refs := ⟨set.binding?⟩

/-- Wrap a template that is built from the references of the set. -/
def wrapWith (set : BindingSet) (build : Refs → Expr) : Expr :=
  set.emit (build set.refs)

end BindingSet

/-- Wrap a template so that each of the bound expressions is evaluated exactly once. -/
def onceOnly (bindings : List (String × Expr)) (body : Expr) (supply : Supply) :
    Except Fault Expr × Supply :=
  match BindingSet.ofList bindings supply with
  | (.ok set, supply) => (.ok (set.wrap body), supply)
  | (.error fault, supply) => (.error fault, supply)

namespace BindingSet

theorem extend_of_contains {set : BindingSet} {name : String}
    (h : set.names.contains name = true) (form : Expr) (rest : List (String × Expr))
    (supply : Supply) :
    set.extend ((name, form) :: rest) supply
      = (.error (.duplicateName name .bindingSet), supply) := by
  simp [extend, h]

theorem extend_of_not_contains {set : BindingSet} {name : String}
    (h : set.names.contains name = false) (form : Expr) (rest : List (String × Expr))
    (supply : Supply) :
    set.extend ((name, form) :: rest) supply
      = (set.stage name form supply).1.extend rest (set.stage name form supply).2 := by
  simp [extend, h]

end BindingSet

end Hygiene
