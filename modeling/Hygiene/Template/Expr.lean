import Hygiene.Ident
import Hygiene.Value

/-!
# Expressions

An `Expr` is code to run later: building one runs nothing. It speaks of values in two ways. A *name*
is a word that someone wrote and means whatever the innermost enclosing binding of that word says; a
*reference* points at an identifier drawn from the supply, which no written word can be confused
with. A `letIn` binds either kind, one after the other, each value seeing the binders before it.

Expressions are compared up to the hints of identifiers (`Expr.beq`).
-/

namespace Hygiene

inductive Binder where
  | name (n : String)
  /-- An identifier drawn from the supply. -/
  | ident (i : Ident)

namespace Binder

/-- Names by their letters, identifiers by their numbers; never one like the other. -/
def beq : Binder → Binder → Bool
  | name a, name b => a == b
  | ident a, ident b => a == b
  | _, _ => false

instance : BEq Binder := ⟨beq⟩

@[simp] theorem name_beq_name (a b : String) : (name a == name b) = (a == b) := rfl

@[simp] theorem ident_beq_ident (i j : Ident) : (ident i == ident j) = (i.id == j.id) := rfl

/-- The bound names after this binder: a written name joins them, an identifier shadows none. -/
def bindName (bound : List String) : Binder → List String
  | name n => n :: bound
  | ident _ => bound

/-- The bound names after several binders, in order. -/
def bindNames (bound : List String) (binders : List Binder) : List String :=
  binders.foldl bindName bound

end Binder

/-- A node of generated code. -/
inductive Expr where
  /-- A value as it stands. -/
  | lit (v : Value)
  | name (n : String)
  /-- A reference to an identifier. -/
  | ref (i : Ident)
  | call (function : String) (args : List Expr)
  /-- Bindings, each in scope for those after it and for the body. -/
  | letIn (bindings : List (Binder × Expr)) (body : Expr)
  /-- One after another; the last one's value counts. -/
  | seq (items : List Expr)
  /-- A choice by truth. -/
  | cond (condition yes no : Expr)

namespace Expr

instance : Inhabited Expr := ⟨lit .nil⟩

mutual

/-- Whether two expressions are the same up to hints. -/
def beq : Expr → Expr → Bool
  | lit v, lit w => v == w
  | name a, name b => a == b
  | ref i, ref j => i == j
  | call f args, call g args' => f == g && beqAll args args'
  | letIn bindings body, letIn bindings' body' =>
    beqBindings bindings bindings' && beq body body'
  | seq items, seq items' => beqAll items items'
  | cond c t e, cond c' t' e' => beq c c' && beq t t' && beq e e'
  | _, _ => false

def beqAll : List Expr → List Expr → Bool
  | [], [] => true
  | e :: es, e' :: es' => beq e e' && beqAll es es'
  | _, _ => false

def beqBindings : List (Binder × Expr) → List (Binder × Expr) → Bool
  | [], [] => true
  | (b, e) :: rest, (b', e') :: rest' => b == b' && beq e e' && beqBindings rest rest'
  | _, _ => false

end

instance : BEq Expr := ⟨beq⟩

mutual

/-- The number of references to `i`. A binder is no reference. -/
def countRefs (i : Ident) : Expr → Nat
  | lit _ | name _ => 0
  | ref j => if j == i then 1 else 0
  | call _ args => countRefsAll i args
  | letIn bindings body => countRefsBindings i bindings + countRefs i body
  | seq items => countRefsAll i items
  | cond c t e => countRefs i c + countRefs i t + countRefs i e

def countRefsAll (i : Ident) : List Expr → Nat
  | [] => 0
  | e :: es => countRefs i e + countRefsAll i es

def countRefsBindings (i : Ident) : List (Binder × Expr) → Nat
  | [] => 0
  | (_, e) :: rest => countRefs i e + countRefsBindings i rest

end

mutual

theorem beq_self : ∀ e : Expr, beq e e = true
  | lit _ | name _ => by simp [beq]
  | ref _ => by simp [beq]
  | call _ args => by simp [beq, beqAll_self args]
  | letIn bindings body => by simp [beq, beqBindings_self bindings, beq_self body]
  | seq items => by simp [beq, beqAll_self items]
  | cond c t e => by simp [beq, beq_self c, beq_self t, beq_self e]

theorem beqAll_self : ∀ es : List Expr, beqAll es es = true
  | [] => rfl
  | e :: es => by simp [beqAll, beq_self e, beqAll_self es]

theorem beqBindings_self : ∀ bs : List (Binder × Expr), beqBindings bs bs = true
  | [] => rfl
  | (b, e) :: rest => by
    have hb : (b == b) = true := by cases b <;> simp
    simp [beqBindings, hb, beq_self e, beqBindings_self rest]

end

end Expr

end Hygiene
