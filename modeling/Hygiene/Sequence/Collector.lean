import Hygiene.Fault
import Hygiene.OrderedMap

/-!
# Collectors

A `Collector` gathers elements in the order in which they come in. Its contents are handed out as a
list, and being a value that list never sees what is appended later. A `CollectorScope` is a fixed
group of collectors under distinct names: the names are declared once, every operation keeps them
and their order, and a name that was not declared is a fault that changes nothing.
-/

namespace Hygiene

/-- A sequence under construction. -/
structure Collector (α : Type) where
  items : Array α := #[]

namespace Collector

variable {α : Type}

/-- A collector that starts with the given elements. -/
def ofList (xs : List α) : Collector α := ⟨xs.toArray⟩

/-- The elements gathered so far, oldest first. -/
def toList (c : Collector α) : List α := c.items.toList

def size (c : Collector α) : Nat := c.items.size

def isEmpty (c : Collector α) : Bool := c.items.isEmpty

def append (c : Collector α) (a : α) : Collector α := ⟨c.items.push a⟩

def extend (c : Collector α) (xs : List α) : Collector α := xs.foldl append c

@[simp] theorem toList_empty : ({} : Collector α).toList = [] := rfl

@[simp] theorem toList_append (c : Collector α) (a : α) :
    (c.append a).toList = c.toList ++ [a] := by
  simp [append, toList]

@[simp] theorem toList_extend (c : Collector α) (xs : List α) :
    (c.extend xs).toList = c.toList ++ xs := by
  unfold extend
  induction xs generalizing c with
  | nil => simp
  | cons a xs ih => simp [ih]

end Collector

/-- A group of named collectors. -/
structure CollectorScope (α : Type) where
  collectors : OrderedMap String (Collector α) := {}

namespace CollectorScope

variable {α : Type}

/-- Declare further empty collectors behind those of `scope`; the first name that is already there
is refused. -/
def declare (scope : CollectorScope α) : List String → Except Fault (CollectorScope α)
  | [] => .ok scope
  | name :: rest =>
    if scope.collectors.contains name then .error (.duplicateName name .collectorScope)
    else declare ⟨scope.collectors.insert name {}⟩ rest

/-- One empty collector for each name. -/
def ofNames (names : List String) : Except Fault (CollectorScope α) :=
  declare {} names

def names (scope : CollectorScope α) : List String := scope.collectors.keys

def get? (scope : CollectorScope α) (name : String) : Option (Collector α) :=
  scope.collectors.get? name

/-- Change the collector of that name, if it is declared. -/
def update (scope : CollectorScope α) (name : String) (f : Collector α → Collector α) :
    CollectorScope α :=
  ⟨scope.collectors.modify name f⟩

/-- Send an element to the collector of that name. -/
def append (scope : CollectorScope α) (name : String) (a : α) :
    Except Fault (CollectorScope α) :=
  match scope.get? name with
  | none => .error (.unknownCollector name)
  | some _ => .ok (scope.update name (·.append a))

def finalize (scope : CollectorScope α) (name : String) : Except Fault (List α) :=
  match scope.get? name with
  | none => .error (.unknownCollector name)
  | some collector => .ok collector.toList

/-- What every collector holds now, in the order of declaration. -/
def finalizeAll (scope : CollectorScope α) : OrderedMap String (List α) :=
  scope.collectors.mapValues Collector.toList

/-- Take a scope apart: the contents of its collectors, stored one after another under their names. -/
def intoFinalized (scope : CollectorScope α) : OrderedMap String (List α) :=
  .ofList (scope.collectors.entries.map fun entry => (entry.1, entry.2.toList))

@[simp] theorem keys_finalizeAll (scope : CollectorScope α) :
    scope.finalizeAll.keys = scope.names :=
  OrderedMap.keys_mapValues ..

end CollectorScope

end Hygiene
