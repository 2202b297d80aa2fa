/-!
# Values

What generated code computes with: nothing, booleans, 64-bit integers, strings, and two shapes of
sequence. A vector is addressed by index, a list is walked from its front; they are different
values even when they hold the same elements. Equality is structural and decidable
(`Value.beq_iff`).
-/

namespace Hygiene

inductive Value where
  /-- The absent value, also read as the empty sequence. -/
  | nil
  | bool (b : Bool)
  | int (n : Int64)
  | str (s : String)
  /-- An index-addressable sequence. -/
  | vector (items : List Value)
  /-- A link-sequential sequence. -/
  | list (items : List Value)

namespace Value

/-- The absent value stands where nothing else was given. -/
instance : Inhabited Value := ⟨nil⟩

mutual

/-- Structural equality. -/
def beq : Value → Value → Bool
  | nil, nil => true
  | bool a, bool b => a == b
  | int a, int b => a == b
  | str a, str b => a == b
  | vector xs, vector ys => beqAll xs ys
  | list xs, list ys => beqAll xs ys
  | _, _ => false

def beqAll : List Value → List Value → Bool
  | [], [] => true
  | x :: xs, y :: ys => beq x y && beqAll xs ys
  | _, _ => false

end

instance : BEq Value := ⟨beq⟩

mutual

theorem beq_eq_true_iff : ∀ a b : Value, beq a b = true ↔ a = b
  | nil, b | bool _, b | int _, b | str _, b => by cases b <;> simp [beq]
  | vector xs, b | list xs, b => by cases b <;> simp [beq, beqAll_eq_true_iff xs]

theorem beqAll_eq_true_iff : ∀ xs ys : List Value, beqAll xs ys = true ↔ xs = ys
  | [], ys => by cases ys <;> simp [beqAll]
  | x :: xs, [] => by simp [beqAll]
  | x :: xs, y :: ys => by simp [beqAll, beq_eq_true_iff x y, beqAll_eq_true_iff xs ys]

end

theorem beq_iff {a b : Value} : beq a b = true ↔ a = b := beq_eq_true_iff a b

instance : LawfulBEq Value where
  eq_of_beq h := beq_iff.mp h
  rfl := beq_iff.mpr rfl

instance : DecidableEq Value := fun _ _ => decidable_of_iff _ beq_iff

/-- The short name of a value's kind, as error messages give it. -/
def kind : Value → String
  | nil => "nil"
  | bool _ => "bool"
  | int _ => "int"
  | str _ => "string"
  | vector _ => "vector"
  | list _ => "list"

/-- Everything except `nil` and `false` counts as true. -/
def isTruthy : Value → Bool
  | nil | bool false => false
  | _ => true

def asInt? : Value → Option Int64
  | int n => some n
  | _ => none

def asStr? : Value → Option String
  | str s => some s
  | _ => none

end Value

end Hygiene
