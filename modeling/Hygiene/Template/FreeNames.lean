import Hygiene.Template.Expr

/-!
# Free names

A written name is free where no enclosing `letIn` has bound it before. References have no part in
this: an identifier is neither free nor able to shadow a name.

`Expr.freeNames` finds the free names in one walk over the expression, which keeps a stack of the
names bound on the way and takes it back to where it was at the end of each `letIn`.
`Expr.freeOccurrences` says what there is to find: every free mention, from left to right.
-/

namespace Hygiene

/-- Add an element behind the others unless it is there already. -/
def addNew {α : Type} [BEq α] (seen : List α) (a : α) : List α :=
  if seen.contains a then seen else seen ++ [a]

/-- The elements of a list without repetition, each where it first appears. -/
def firstAppearances {α : Type} [BEq α] (xs : List α) : List α :=
  xs.foldl addNew []

/-- Where a walk has got to: the names bound around that place, the innermost first, and the free
names found so far. -/
structure NameWalk where
  bound : List String := []
  free : List String := []

namespace NameWalk

/-- Come past a mention of a name. -/
def mention (w : NameWalk) (n : String) : NameWalk :=
  if w.bound.contains n then w else { w with free := addNew w.free n }

/-- Come past a binder. -/
def bind (w : NameWalk) (b : Binder) : NameWalk := { w with bound := b.bindName w.bound }

/-- Go back to an earlier depth of the stack. What was found stays. -/
def truncate (w : NameWalk) (depth : Nat) : NameWalk :=
  { w with bound := w.bound.drop (w.bound.length - depth) }

end NameWalk

namespace Expr

mutual

/-- Walk over an expression, left to right. -/
def walkNames : Expr → NameWalk → NameWalk
  | lit _, w | ref _, w => w
  | name n, w => w.mention n
  | call _ args, w => walkNamesAll args w
  | letIn bindings body, w =>
    (walkNames body (walkNamesBindings bindings w)).truncate w.bound.length
  | seq items, w => walkNamesAll items w
  | cond c t e, w => walkNames e (walkNames t (walkNames c w))

def walkNamesAll : List Expr → NameWalk → NameWalk
  | [], w => w
  | e :: es, w => walkNamesAll es (walkNames e w)

/-- Walk over the values of bindings and come past each binder behind its value. -/
def walkNamesBindings : List (Binder × Expr) → NameWalk → NameWalk
  | [], w => w
  | (b, e) :: rest, w => walkNamesBindings rest ((walkNames e w).bind b)

end

/-- The names that an expression mentions without binding them, in order of first appearance. -/
def freeNames (e : Expr) : List String := (e.walkNames {}).free

mutual

/-- Every mention of a name that neither `bound` nor a `letIn` around it binds, left to right. -/
def freeOccurrences (bound : List String) : Expr → List String
  | lit _ | ref _ => []
  | name n => if bound.contains n then [] else [n]
  | call _ args => freeOccurrencesAll bound args
  | letIn bindings body =>
    freeOccurrencesBindings bound bindings
      ++ freeOccurrences (Binder.bindNames bound (bindings.map Prod.fst)) body
  | seq items => freeOccurrencesAll bound items
  | cond c t e => freeOccurrences bound c ++ freeOccurrences bound t ++ freeOccurrences bound e

def freeOccurrencesAll (bound : List String) : List Expr → List String
  | [] => []
  | e :: es => freeOccurrences bound e ++ freeOccurrencesAll bound es

/-- The free mentions in the values of bindings, each under the binders before it. -/
def freeOccurrencesBindings (bound : List String) : List (Binder × Expr) → List String
  | [] => []
  | (b, e) :: rest =>
    freeOccurrences bound e ++ freeOccurrencesBindings (b.bindName bound) rest

end

end Expr

theorem mem_addNew {α : Type} [BEq α] [LawfulBEq α] {seen : List α} {a b : α} :
    b ∈ addNew seen a ↔ b ∈ seen ∨ b = a := by
  unfold addNew
  split
  next h =>
    refine ⟨Or.inl, fun hb => hb.elim id fun e => ?_⟩
    rw [e]
    exact List.contains_iff_mem.mp h
  next => simp

theorem nodup_addNew {α : Type} [BEq α] [LawfulBEq α] {seen : List α} (h : seen.Nodup) (a : α) :
    (addNew seen a).Nodup := by
  unfold addNew
  split
  next => exact h
  next hnot =>
    refine List.nodup_append.mpr ⟨h, by simp, fun x hx y hy => ?_⟩
    rw [List.mem_singleton.mp hy]
    exact fun e => hnot (List.contains_iff_mem.mpr (e ▸ hx))

end Hygiene
