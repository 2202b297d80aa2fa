import Hygiene.Evaluation.Primitives
import Mathlib.Algebra.Ring.Int.Defs
import Mathlib.Data.List.Infix

/-!
# Sums

`Primitive.add` keeps its sum so far in a word of 64 bits. What it answers is said here in integers, which
have no end: the sum so far is always the exact sum of the arguments already added, and the first argument
that has no place in that sum, because it is no integer or because the exact sum with it is not one that 64
bits hold, ends the addition. It is the sums on the way that count and not the last one, so the order of the
arguments matters: a sum that has left the range is not brought back into it.

`addFrom_int_cons` and `addFrom_of_offends` are the two things that one argument can do, and
`addFrom_map_int_append` is what a run of arguments without offence comes to, whatever stands behind it.
Any arguments at all are such a run or have an offence right behind one (`staysInRange_or_offends`).

> `add_decides`: what a sum is, for all arguments, and that nothing behind an offence matters.
-/

namespace Hygiene.Primitive

/-! ## Exact sums -/

/-- The integers that a word of 64 bits holds. -/
def InRange (t : Int) : Prop := -2 ^ 63 ≤ t ∧ t < 2 ^ 63

instance (t : Int) : Decidable (InRange t) := inferInstanceAs (Decidable (_ ∧ _))

/-- The exact sum of words, which a word may not hold. -/
def total (ns : List Int64) : Int := (ns.map Int64.toInt).sum

@[simp] theorem total_nil : total [] = 0 := rfl

@[simp] theorem total_cons (n : Int64) (ns : List Int64) : total (n :: ns) = n.toInt + total ns := rfl

/-- Added to `start` one after another, the words never come to an exact sum that is out of range. -/
def StaysInRange (start : Int) (ns : List Int64) : Prop :=
  ∀ front ∈ ns.inits, InRange (start + total front)

theorem staysInRange_nil {start : Int} : StaysInRange start [] ↔ InRange start := by
  simp [StaysInRange]

theorem staysInRange_cons {start : Int} {n : Int64} {ns : List Int64} :
    StaysInRange start (n :: ns) ↔ InRange start ∧ StaysInRange (start + n.toInt) ns := by
  simp [StaysInRange, Int.add_assoc]

theorem staysInRange_zero {ns : List Int64} :
    StaysInRange 0 ns ↔ ∀ front ∈ ns.inits, InRange (total front) := by
  simp only [StaysInRange, Int.zero_add]

theorem StaysInRange.start {start : Int} {ns : List Int64} (h : StaysInRange start ns) :
    InRange start := by
  cases ns with
  | nil => exact staysInRange_nil.mp h
  | cons n ns => exact (staysInRange_cons.mp h).1

/-! ## Words -/

theorem exists_toInt_eq {t : Int} (h : InRange t) : ∃ n : Int64, n.toInt = t :=
  ⟨.ofInt t, Int64.toInt_ofInt_of_le h.1 h.2⟩

theorem addInRange_of_toInt {a b t : Int64} (h : t.toInt = a.toInt + b.toInt) :
    addInRange a b = some t := by
  have hlow := t.le_toInt
  have hhigh := t.toInt_lt
  unfold addInRange
  rw [← h, Int64.toInt_minValue, Int64.toInt_maxValue, if_pos ⟨hlow, by omega⟩, Int64.ofInt_toInt]

theorem addInRange_of_not_inRange {a b : Int64} (h : ¬ InRange (a.toInt + b.toInt)) :
    addInRange a b = none := by
  unfold addInRange
  rw [Int64.toInt_minValue, Int64.toInt_maxValue]
  exact if_neg fun hwithin => h ⟨hwithin.1, by omega⟩

/-! ## One argument -/

/-- An argument that has no place in a sum, given the exact sum of what stands before it, and how it is
refused. -/
inductive Offends (before : Int) : Value → Failure → Prop where
  | kind {v : Value} (h : ∀ n, v ≠ .int n) :
    Offends before v (.host "+" ("expected int, got " ++ v.kind))
  | range {n : Int64} (h : ¬ InRange (before + n.toInt)) :
    Offends before (.int n) (.host "+" "integer overflow")

theorem addFrom_int_cons {s n t : Int64} (h : t.toInt = s.toInt + n.toInt) (later : List Value) :
    addFrom s (.int n :: later) = addFrom t later := by
  rw [addFrom, integer_int]
  dsimp only
  rw [addInRange_of_toInt h]

/-- An argument that offends ends the addition, whatever stands behind it. -/
theorem addFrom_of_offends {s : Int64} {v : Value} {failure : Failure}
    (h : Offends s.toInt v failure) (later : List Value) :
    addFrom s (v :: later) = .error failure := by
  cases h with
  | kind hv => rw [addFrom, integer_of_ne hv]
  | range hn =>
    rw [addFrom, integer_int]
    dsimp only
    rw [addInRange_of_not_inRange hn]

/-! ## All arguments -/

/-- Words that stay in range are added exactly, whatever stands behind them. -/
theorem addFrom_map_int_append {s t : Int64} {ns : List Int64} (h : StaysInRange s.toInt ns)
    (ht : t.toInt = s.toInt + total ns) (later : List Value) :
    addFrom s (ns.map Value.int ++ later) = addFrom t later := by
  induction ns generalizing s with
  | nil =>
    rw [total_nil, Int.add_zero] at ht
    obtain rfl := Int64.toInt_inj.mp ht
    rfl
  | cons n ns ih =>
    obtain ⟨-, hrest⟩ := staysInRange_cons.mp h
    obtain ⟨u, hu⟩ := exists_toInt_eq hrest.start
    rw [List.map_cons, List.cons_append, addFrom_int_cons hu]
    -- the sum so far is now `u`, exactly
    refine ih ?_ ?_
    · rw [hu]
      exact hrest
    · rw [ht, hu, total_cons, Int.add_assoc]

/-- Arguments are words that stay in range, or have such words in front and an offence right behind. -/
theorem staysInRange_or_offends {start : Int} (h : InRange start) (args : List Value) :
    (∃ ns : List Int64, args = ns.map Value.int ∧ StaysInRange start ns) ∨
    ∃ (ns : List Int64) (v : Value) (later : List Value) (failure : Failure),
      args = ns.map Value.int ++ v :: later ∧ StaysInRange start ns ∧
        Offends (start + total ns) v failure := by
  induction args generalizing start with
  | nil => exact Or.inl ⟨[], rfl, staysInRange_nil.mpr h⟩
  | cons v rest ih =>
    by_cases hv : ∃ n, v = .int n
    · obtain ⟨n, rfl⟩ := hv
      by_cases hn : InRange (start + n.toInt)
      · -- the first argument is added, and what follows decides
        rcases ih hn with ⟨ns, rfl, hns⟩ | ⟨ns, w, later, failure, rfl, hns, hw⟩
        · exact Or.inl ⟨n :: ns, rfl, staysInRange_cons.mpr ⟨h, hns⟩⟩
        · refine Or.inr ⟨n :: ns, w, later, failure, rfl, staysInRange_cons.mpr ⟨h, hns⟩, ?_⟩
          rw [total_cons, ← Int.add_assoc]
          exact hw
      · refine Or.inr ⟨[], .int n, rest, _, rfl, staysInRange_nil.mpr h, .range ?_⟩
        rw [total_nil, Int.add_zero]
        exact hn
    · exact Or.inr ⟨[], v, rest, _, rfl, staysInRange_nil.mpr h, .kind fun n hn => hv ⟨n, hn⟩⟩

/-! ## Sums from nothing -/

theorem exists_toInt_eq_total {ns : List Int64} (h : ∀ front ∈ ns.inits, InRange (total front)) :
    ∃ t : Int64, t.toInt = total ns :=
  exists_toInt_eq (h ns ((List.mem_inits ns ns).mpr List.prefix_rfl))

theorem add_map_int_append {ns : List Int64} {t : Int64} (h : ∀ front ∈ ns.inits, InRange (total front))
    (ht : t.toInt = total ns) (later : List Value) :
    add (ns.map Value.int ++ later) = addFrom t later := by
  refine addFrom_map_int_append ?_ ?_ later
  · rw [Int64.toInt_zero]
    exact staysInRange_zero.mpr h
  · rw [Int64.toInt_zero, Int.zero_add]
    exact ht

theorem add_map_int {ns : List Int64} {t : Int64} (h : ∀ front ∈ ns.inits, InRange (total front))
    (ht : t.toInt = total ns) : add (ns.map Value.int) = .ok (.int t) := by
  have hrun := add_map_int_append h ht []
  rw [List.append_nil] at hrun
  exact hrun

theorem add_of_offends {ns : List Int64} (h : ∀ front ∈ ns.inits, InRange (total front)) {v : Value}
    {failure : Failure} (hv : Offends (total ns) v failure) (later : List Value) :
    add (ns.map Value.int ++ v :: later) = .error failure := by
  obtain ⟨t, ht⟩ := exists_toInt_eq_total h
  rw [add_map_int_append h ht]
  exact addFrom_of_offends (ht ▸ hv) later

/-- Any arguments at all have an exact sum that is in range all the way, or one of them is the first to
offend. -/
theorem exists_total_or_offends (args : List Value) :
    (∃ (ns : List Int64) (t : Int64), args = ns.map Value.int ∧
      (∀ front ∈ ns.inits, InRange (total front)) ∧ t.toInt = total ns) ∨
    ∃ (ns : List Int64) (v : Value) (later : List Value) (failure : Failure),
      args = ns.map Value.int ++ v :: later ∧ (∀ front ∈ ns.inits, InRange (total front)) ∧
        Offends (total ns) v failure := by
  have hzero : InRange 0 := by decide
  rcases staysInRange_or_offends hzero args with
    ⟨ns, hargs, hns⟩ | ⟨ns, v, later, failure, hargs, hns, hv⟩
  · have hfits := staysInRange_zero.mp hns
    obtain ⟨t, ht⟩ := exists_toInt_eq_total hfits
    exact Or.inl ⟨ns, t, hargs, hfits, ht⟩
  · rw [Int.zero_add] at hv
    exact Or.inr ⟨ns, v, later, failure, hargs, staysInRange_zero.mp hns, hv⟩

theorem exists_add_eq (args : List Value) :
    (∃ t : Int64, add args = .ok (.int t)) ∨ ∃ failure : Failure, add args = .error failure := by
  rcases exists_total_or_offends args with
    ⟨ns, t, rfl, hns, ht⟩ | ⟨ns, v, later, failure, rfl, hns, hv⟩
  · exact Or.inl ⟨t, add_map_int hns ht⟩
  · exact Or.inr ⟨failure, add_of_offends hns hv later⟩

theorem add_eq_ok_iff {args : List Value} {t : Int64} :
    add args = .ok (.int t) ↔ ∃ ns : List Int64, args = ns.map Value.int ∧
      (∀ front ∈ ns.inits, InRange (total front)) ∧ t.toInt = total ns := by
  constructor
  · intro h
    rcases exists_total_or_offends args with
      ⟨ns, u, rfl, hns, hu⟩ | ⟨ns, v, later, failure, rfl, hns, hv⟩
    · rw [add_map_int hns hu] at h
      obtain rfl : u = t := Value.int.inj (Except.ok.inj h)
      exact ⟨ns, rfl, hns, hu⟩
    · rw [add_of_offends hns hv] at h
      cases h
  · rintro ⟨ns, rfl, hns, ht⟩
    exact add_map_int hns ht

theorem add_eq_error_iff {args : List Value} {failure : Failure} :
    add args = .error failure ↔
      ∃ (ns : List Int64) (v : Value) (later : List Value), args = ns.map Value.int ++ v :: later ∧
        (∀ front ∈ ns.inits, InRange (total front)) ∧ Offends (total ns) v failure := by
  constructor
  · intro h
    rcases exists_total_or_offends args with
      ⟨ns, t, rfl, hns, ht⟩ | ⟨ns, v, later, other, rfl, hns, hv⟩
    · rw [add_map_int hns ht] at h
      cases h
    · rw [add_of_offends hns hv] at h
      obtain rfl := Except.error.inj h
      exact ⟨ns, v, later, rfl, hns, hv⟩
  · rintro ⟨ns, v, later, rfl, hns, hv⟩
    exact add_of_offends hns hv later

/-- Arguments that cannot be added cannot be added with more behind them, for the same reason. -/
theorem add_append_of_error {front : List Value} {failure : Failure} (h : add front = .error failure)
    (later : List Value) : add (front ++ later) = .error failure := by
  obtain ⟨ns, v, between, rfl, hns, hv⟩ := add_eq_error_iff.mp h
  rw [List.append_assoc, List.cons_append]
  exact add_of_offends hns hv (between ++ later)

theorem apply_standard_plus {σ : Type} (args : List Value) (scope : Scope) (host : σ) :
    Interpreter.standard.apply "+" args scope host = ⟨add args, scope, host⟩ := rfl

/-- **What a sum is.** The function that `+` names from the start answers with the sum of its arguments
and touches nothing else. The sum is an integer if all arguments are integers and no exact sum of the first
ones is out of range, and it is then their exact sum. Otherwise the first argument that offends decides the
failure: that it is no integer, or that the exact sum with it is out of range. What stands behind that
argument has no say. -/
theorem add_decides :
    (∀ {σ : Type} (args : List Value) (scope : Scope) (host : σ),
      Interpreter.standard.apply "+" args scope host = ⟨add args, scope, host⟩) ∧
    (∀ args : List Value,
      (∃ t : Int64, add args = .ok (.int t)) ∨ ∃ failure : Failure, add args = .error failure) ∧
    (∀ (args : List Value) (t : Int64), add args = .ok (.int t) ↔
      ∃ ns : List Int64, args = ns.map Value.int ∧ (∀ front ∈ ns.inits, InRange (total front)) ∧
        t.toInt = total ns) ∧
    (∀ (args : List Value) (failure : Failure), add args = .error failure ↔
      ∃ (ns : List Int64) (v : Value) (later : List Value), args = ns.map Value.int ++ v :: later ∧
        (∀ front ∈ ns.inits, InRange (total front)) ∧ Offends (total ns) v failure) ∧
    ∀ (front later : List Value) (failure : Failure),
      add front = .error failure → add (front ++ later) = .error failure :=
  ⟨apply_standard_plus, exists_add_eq, fun _ _ => add_eq_ok_iff, fun _ _ => add_eq_error_iff,
    fun _ later _ h => add_append_of_error h later⟩

/-- A sum that would come back into range is refused, at either end; the same arguments are added in an
order that stays in range. Of two things wrong the first decides. -/
theorem add_decides_coming_back :
    let greatest : Value := .int Int64.maxValue
    let least : Value := .int Int64.minValue
    add [greatest, .int 1, .int (-1)] = .error (.host "+" "integer overflow") ∧
    add [least, .int (-1), .int 1] = .error (.host "+" "integer overflow") ∧
    add [greatest, .int (-1), .int 1] = .ok greatest ∧
    add [.int 1, .nil, greatest, .int 1] = .error (.host "+" "expected int, got nil") ∧
    add [greatest, .int 1, .nil] = .error (.host "+" "integer overflow") := by
  intro greatest least
  obtain ⟨-, -, hok, herror, hbehind⟩ := add_decides
  have hover : add [greatest, .int 1] = .error (.host "+" "integer overflow") :=
    (herror _ _).mpr ⟨[Int64.maxValue], .int 1, [], rfl, by decide, .range (by decide)⟩
  refine ⟨hbehind _ [.int (-1)] _ hover, ?_, ?_, ?_, hbehind _ [.nil] _ hover⟩
  · exact (herror _ _).mpr
      ⟨[Int64.minValue], .int (-1), [.int 1], rfl, by decide, .range (by decide)⟩
  · exact (hok _ _).mpr ⟨[Int64.maxValue, -1, 1], rfl, by decide, by decide⟩
  · exact (herror _ _).mpr ⟨[1], .nil, [greatest, .int 1], rfl, by decide, .kind nofun⟩

end Hygiene.Primitive
