import Hygiene.Template.Expr

/-!
# Scopes

A scope is a stack of bindings, the innermost first. Names and identifiers live side by side in it
and never see each other: a lookup takes the innermost binding of its own kind that matches.
`truncate` takes the stack back to an earlier depth, which undoes what was pushed since.
-/

namespace Hygiene

/-- Bindings in force, the innermost first. -/
structure Scope where
  bindings : List (Binder × Value) := []
  deriving Inhabited

namespace Scope

def push (s : Scope) (b : Binder) (v : Value) : Scope := ⟨(b, v) :: s.bindings⟩

def depth (s : Scope) : Nat := s.bindings.length

/-- Go back to an earlier depth. A scope that is not deeper stays as it is. -/
def truncate (s : Scope) (depth : Nat) : Scope := ⟨s.bindings.drop (s.depth - depth)⟩

/-- The innermost value bound by a binder like this one. -/
def lookup? (s : Scope) (b : Binder) : Option Value := s.bindings.lookup b

def lookupName? (s : Scope) (n : String) : Option Value := s.lookup? (.name n)

def lookupIdent? (s : Scope) (i : Ident) : Option Value := s.lookup? (.ident i)

theorem lookup?_push (s : Scope) (b c : Binder) (v : Value) :
    (s.push c v).lookup? b = if b == c then some v else s.lookup? b := by
  rw [lookup?, push, List.lookup_cons]
  cases b == c <;> rfl

@[simp] theorem lookupName?_push_name (s : Scope) (n m : String) (v : Value) :
    (s.push (.name m) v).lookupName? n = if n = m then some v else s.lookupName? n := by
  simp [lookupName?, lookup?_push]

@[simp] theorem lookupName?_push_ident (s : Scope) (n : String) (i : Ident) (v : Value) :
    (s.push (.ident i) v).lookupName? n = s.lookupName? n := rfl

@[simp] theorem lookupIdent?_push_name (s : Scope) (i : Ident) (n : String) (v : Value) :
    (s.push (.name n) v).lookupIdent? i = s.lookupIdent? i := rfl

@[simp] theorem lookupIdent?_push_ident (s : Scope) (i j : Ident) (v : Value) :
    (s.push (.ident j) v).lookupIdent? i = if i.id = j.id then some v else s.lookupIdent? i := by
  simp [lookupIdent?, lookup?_push]

end Scope

end Hygiene
