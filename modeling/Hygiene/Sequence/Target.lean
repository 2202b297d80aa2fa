import Hygiene.Fault
import Hygiene.Value

/-!
# Traversal targets

A container can be walked if it is addressed by index or linked front to back. `Indexed` is the
first interface, a length and an element at each index; `Linked` is the second, a chain of cells. A
chain may end in a cell that holds nothing or in an element with nothing behind it; both ends mean
the same, and `Linked.toList` does not tell them apart.
-/

namespace Hygiene

structure Indexed (α : Type) where
  length : Nat
  get? : Nat → Option α

/-- The elements of a list, addressed by index. -/
def Indexed.ofList {α : Type} (xs : List α) : Indexed α := ⟨xs.length, fun i => xs[i]?⟩

/-- A link-sequential sequence: a cell with what follows it. -/
inductive Linked (α : Type) where
  /-- The end as a cell of its own. -/
  | vacant
  /-- The last element, with nothing behind it. -/
  | last (a : α)
  /-- An element and the cell behind it. -/
  | cell (a : α) (rest : Linked α)

namespace Linked

variable {α : Type}

def first? : Linked α → Option α
  | vacant => none
  | last a | cell a _ => some a

def rest? : Linked α → Option (Linked α)
  | vacant | last _ => none
  | cell _ rest => some rest

/-- The contents of every cell that is reached from this one, this one included. -/
def cells : Linked α → List (Option α)
  | vacant => [none]
  | last a => [some a]
  | cell a rest => some a :: rest.cells

def toList : Linked α → List α
  | vacant => []
  | last a => [a]
  | cell a rest => a :: rest.toList

/-- A chain that ends in a cell holding nothing. -/
def ofList : List α → Linked α
  | [] => vacant
  | a :: rest => cell a (ofList rest)

/-- A chain that ends with its last element. There is none without elements. -/
def chain? : List α → Option (Linked α)
  | [] => none
  | a :: rest => some <|
    match chain? rest with
    | some cells => cell a cells
    | none => last a

@[simp] theorem toList_ofList (xs : List α) : (ofList xs).toList = xs := by
  induction xs with
  | nil => rfl
  | cons a rest ih => simp [ofList, toList, ih]

end Linked

/-- A container in one of the two shapes that can be walked. -/
inductive Target (α : Type) where
  | indexed (seq : Indexed α)
  | linked (seq : Linked α)

/-- The shape of a value: vectors are indexed, lists are linked, `nil` is the empty sequence, and
nothing else can be walked. -/
def Value.target : Value → Except Fault (Target Value)
  | nil => .ok (.indexed (.ofList []))
  | vector items => .ok (.indexed (.ofList items))
  | list items => .ok (.linked (.ofList items))
  | v => .error (.unsupportedTarget v.kind)

end Hygiene
