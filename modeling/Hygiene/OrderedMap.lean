/-!
# Maps that remember insertion order

An `OrderedMap` is the list of its entries in the order in which their keys first came in. Storing
under a key that is already there replaces the value and keeps the place
(`keys_insert_of_contains`), a new key goes to the end (`keys_insert_of_not_contains`), and a lookup
takes the first entry whose key matches. Keys are compared with `==`, so a key type may leave part
of a key out of its identity.
-/

namespace Hygiene

/-- A finite map whose entries keep their insertion order. -/
structure OrderedMap (κ α : Type) where
  entries : List (κ × α) := []

namespace OrderedMap

variable {κ α β : Type}

/-- The keys, oldest first. -/
def keys (m : OrderedMap κ α) : List κ := m.entries.map Prod.fst

/-- The values, in the order of their keys. -/
def values (m : OrderedMap κ α) : List α := m.entries.map Prod.snd

def size (m : OrderedMap κ α) : Nat := m.entries.length

def isEmpty (m : OrderedMap κ α) : Bool := m.entries.isEmpty

def mapValues (f : α → β) (m : OrderedMap κ α) : OrderedMap κ β :=
  ⟨m.entries.map fun e => (e.1, f e.2)⟩

variable [BEq κ]

def get? (m : OrderedMap κ α) (k : κ) : Option α := m.entries.lookup k

def contains (m : OrderedMap κ α) (k : κ) : Bool := m.entries.any fun e => k == e.1

/-- Apply `f` to the value stored under `k`; a key that is not there stays absent. -/
def modify (m : OrderedMap κ α) (k : κ) (f : α → α) : OrderedMap κ α :=
  ⟨m.entries.map fun e => if k == e.1 then (e.1, f e.2) else e⟩

/-- Store `v` under `k`: in place if the key is known, otherwise behind all others. -/
def insert (m : OrderedMap κ α) (k : κ) (v : α) : OrderedMap κ α :=
  if m.contains k then m.modify k fun _ => v else ⟨m.entries ++ [(k, v)]⟩

/-- Store pairs one after another; of two with one key the later value stands at the earlier
place. -/
def ofList (pairs : List (κ × α)) : OrderedMap κ α :=
  pairs.foldl (fun m p => m.insert p.1 p.2) {}

omit [BEq κ] in
@[simp] theorem keys_mapValues (f : α → β) (m : OrderedMap κ α) :
    (m.mapValues f).keys = m.keys := by
  simp [mapValues, keys, Function.comp_def]

@[simp] theorem keys_modify (m : OrderedMap κ α) (k : κ) (f : α → α) :
    (m.modify k f).keys = m.keys := by
  simp only [modify, keys, List.map_map]
  refine List.map_congr_left fun e _ => ?_
  simp only [Function.comp_apply]
  split <;> rfl

theorem keys_insert_of_contains {m : OrderedMap κ α} {k : κ} (h : m.contains k = true) (v : α) :
    (m.insert k v).keys = m.keys := by
  simp [insert, h]

theorem keys_insert_of_not_contains {m : OrderedMap κ α} {k : κ} (h : m.contains k = false)
    (v : α) : (m.insert k v).keys = m.keys ++ [k] := by
  simp [insert, h, keys]

theorem isSome_get? (m : OrderedMap κ α) (k : κ) : (m.get? k).isSome = m.contains k := by
  unfold get? contains
  induction m.entries with
  | nil => rfl
  | cons e rest ih =>
    rw [List.lookup_cons, List.any_cons]
    cases h : k == e.1 <;> simp [ih]

end OrderedMap

end Hygiene
