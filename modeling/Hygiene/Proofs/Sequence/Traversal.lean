import Hygiene.Sequence.Traversal

/-!
# A traversal is a slice

The two shapes are traversed by different code: one clamps the end and asks for one index after
another, the other passes over cells and then counts down. What they show is told by neither:

> `Bounds.sweep`: bounds that end before they start show nothing, a start behind the end of the
> elements is a fault with their number, and otherwise the slice between the bounds is shown.

`Target.traverse_eq_sweep` says that this is what a target comes to, as soon as the elements it holds
are known (`Target.Holds`). Boundary by boundary the shapes agree because of two facts about a chain:
passing over `n` elements leaves the list without its first `n` (`skip_of_le`) or else has counted
them all (`skip_of_lt`), and it does not matter whether the chain ends in a cell or without one,
since a cursor behind the last element and one at an empty cell have the same elements ahead of them
(`ahead`).
-/

namespace Hygiene

variable {α σ : Type}

/-! ## What a target holds -/

/-- The elements of a target, in order: those at its indices, or those along its chain. -/
def Target.Holds : Target α → List α → Prop
  | .indexed seq, xs => seq.length = xs.length ∧ ∀ i, seq.get? i = xs[i]?
  | .linked seq, xs => seq.toList = xs

/-- The elements of a value that is a sequence. -/
def Value.elements? : Value → Option (List Value)
  | nil => some []
  | vector items | list items => some items
  | _ => none

/-- A value that is a sequence resolves to a target that holds its elements. -/
theorem Value.target_of_elements? {v : Value} {xs : List Value} (h : v.elements? = some xs) :
    ∃ target, v.target = .ok target ∧ target.Holds xs := by
  cases v with
  | nil =>
    obtain rfl : [] = xs := Option.some.inj h
    exact ⟨_, rfl, rfl, fun i => rfl⟩
  | vector items =>
    obtain rfl : items = xs := Option.some.inj h
    exact ⟨_, rfl, rfl, fun i => rfl⟩
  | list items =>
    obtain rfl : items = xs := Option.some.inj h
    exact ⟨_, rfl, Linked.toList_ofList items⟩
  | bool b => cases h
  | int n => cases h
  | str s => cases h

namespace Bounds

/-- Where the bounds stop in a sequence of the given length: never behind its end. -/
def stopWithin (b : Bounds) (length : Nat) : Nat :=
  match b.stop with
  | none => length
  | some stop => min stop length

/-- The part of a list between the bounds. -/
def slice (b : Bounds) (xs : List α) : List α :=
  xs.extract b.start (b.stopWithin xs.length)

/-- A traversal of a list: a fault if it would start behind the end, and otherwise the visitor
takes the elements of the slice, one after the other. -/
def sweep (b : Bounds) (xs : List α) (step : σ → α → σ) (s : σ) : Except Fault Unit × σ :=
  if b.isEmptyRange then (.ok (), s)
  else if b.start > xs.length then (.error (.range b.start b.stop xs.length), s)
  else (.ok (), (b.slice xs).foldl step s)

theorem slice_of_stop_eq_none {b : Bounds} (h : b.stop = none) (xs : List α) :
    b.slice xs = xs.drop b.start := by
  have hstop : b.stopWithin xs.length = xs.length := by rw [stopWithin, h]
  rw [slice, hstop, List.extract_eq_take_drop]
  exact List.take_of_length_le (Nat.le_of_eq List.length_drop)

theorem slice_of_stop_eq_some {b : Bounds} {stop : Nat} (h : b.stop = some stop) (xs : List α) :
    b.slice xs = (xs.drop b.start).take (stop - b.start) := by
  have hstop : b.stopWithin xs.length = min stop xs.length := by rw [stopWithin, h]
  have hlength : (xs.drop b.start).length = xs.length - b.start := List.length_drop
  rw [slice, hstop, List.extract_eq_take_drop]
  by_cases hle : stop ≤ xs.length
  · rw [Nat.min_eq_left hle]
  · -- past the end both counts take everything
    rw [Nat.min_eq_right (by omega), List.take_of_length_le (by omega),
      List.take_of_length_le (by omega)]

end Bounds

/-! ## By index -/

namespace Indexed

/-- Elements asked for by consecutive indices are a stretch of the list. -/
theorem filterMap_range' (xs : List α) (n : Nat) :
    ∀ start : Nat, (List.range' start n).filterMap (fun i => xs[i]?) = (xs.drop start).take n := by
  induction n with
  | zero => intro start; rfl
  | succ n ih =>
    intro start
    rw [List.range'_succ]
    by_cases hstart : start < xs.length
    · rw [List.filterMap_cons_some (List.getElem?_eq_getElem hstart), ih,
        List.drop_eq_getElem_cons hstart, List.take_succ_cons]
    · rw [List.filterMap_cons_none (List.getElem?_eq_none (by omega)), ih,
        List.drop_eq_nil_of_le (by omega), List.drop_eq_nil_of_le (by omega), List.take_nil,
        List.take_nil]

theorem traverse_eq_sweep {seq : Indexed α} {xs : List α} (hlength : seq.length = xs.length)
    (hget : ∀ i, seq.get? i = xs[i]?) {b : Bounds} (hrange : b.isEmptyRange = false)
    (step : σ → α → σ) (s : σ) : seq.traverse b step s = b.sweep xs step s := by
  have hvisit : ∀ stop, seq.visit b.start stop step s
      = (xs.extract b.start stop).foldl step s := by
    intro stop
    rw [visit, funext hget, filterMap_range', List.extract_eq_take_drop]
  rw [traverse, Bounds.sweep, hrange, hlength, if_neg Bool.false_ne_true]
  split
  · rfl
  · exact congrArg (Prod.mk (Except.ok ())) (hvisit (b.stopWithin xs.length))

end Indexed

/-! ## Along a chain -/

namespace Linked

/-- The elements from a cursor on. -/
def ahead : Option (Linked α) → List α
  | none => []
  | some seq => seq.toList

/-- Passing over no more than there is leaves the rest. -/
theorem skip_of_le (n : Nat) :
    ∀ (passed : Nat) (cursor : Option (Linked α)), n ≤ (ahead cursor).length →
      ∃ rest, skip n passed cursor = .ok rest ∧ ahead rest = (ahead cursor).drop n := by
  induction n with
  | zero => intro passed cursor _; exact ⟨cursor, rfl, rfl⟩
  | succ n ih =>
    intro passed cursor hle
    rcases cursor with _ | _ | a | ⟨a, rest⟩
    · cases hle
    · cases hle
    · exact ih (passed + 1) none (Nat.le_of_succ_le_succ hle)
    · exact ih (passed + 1) (some rest) (Nat.le_of_succ_le_succ hle)

/-- Running out early counts every element there was. -/
theorem skip_of_lt (n : Nat) :
    ∀ (passed : Nat) (cursor : Option (Linked α)), (ahead cursor).length < n →
      skip n passed cursor = .error (passed + (ahead cursor).length) := by
  induction n with
  | zero => intro passed cursor hlt; cases hlt
  | succ n ih =>
    intro passed cursor hlt
    rcases cursor with _ | _ | a | ⟨a, rest⟩
    · rfl
    · rfl
    · exact (ih (passed + 1) none (Nat.lt_of_succ_lt_succ hlt)).trans rfl
    · rw [skip, ih (passed + 1) (some rest) (Nat.lt_of_succ_lt_succ hlt), ahead, ahead, toList,
        List.length_cons, Nat.add_right_comm, Nat.add_assoc]

theorem visit_none (step : σ → α → σ) (seq : Linked α) :
    ∀ s : σ, seq.visit step none s = seq.toList.foldl step s := by
  induction seq with
  | vacant => intro s; rfl
  | last a => intro s; rfl
  | cell a rest ih => intro s; exact ih (step s a)

theorem visit_some (step : σ → α → σ) (seq : Linked α) :
    ∀ (n : Nat) (s : σ), seq.visit step (some n) s = (seq.toList.take n).foldl step s := by
  induction seq with
  | vacant => intro n s; cases n <;> rfl
  | last a =>
    intro n s
    cases n with
    | zero => rfl
    | succ n => rw [toList, List.take_succ_cons, List.take_nil]; rfl
  | cell a rest ih =>
    intro n s
    cases n with
    | zero => rfl
    | succ n => exact ih n (step s a)

/-- What is shown from a cursor on, for as many elements as are wanted. -/
def visitFrom (step : σ → α → σ) (cursor : Option (Linked α)) (wanted : Option Nat) (s : σ) : σ :=
  match cursor with
  | none => s
  | some seq => seq.visit step wanted s

/-- Showing one element and going on behind it. -/
theorem visit_of_first? {cell : Linked α} {a : α} (hfirst : cell.first? = some a)
    {wanted : Option Nat} (hmore : wanted ≠ some 0) (step : σ → α → σ) (s : σ) :
    cell.visit step wanted s = visitFrom step cell.rest? (wanted.map (· - 1)) (step s a) := by
  rcases wanted with _ | _ | n
  · cases cell with
    | vacant => cases hfirst
    | last b => obtain rfl : b = a := Option.some.inj hfirst; rfl
    | cell b rest => obtain rfl : b = a := Option.some.inj hfirst; rfl
  · exact absurd rfl hmore
  · cases cell with
    | vacant => cases hfirst
    | last b => obtain rfl : b = a := Option.some.inj hfirst; rfl
    | cell b rest => obtain rfl : b = a := Option.some.inj hfirst; rfl

theorem visitFrom_eq_foldl {b : Bounds} {xs : List α} {cursor : Option (Linked α)}
    (hahead : ahead cursor = xs.drop b.start) (step : σ → α → σ) (s : σ) :
    visitFrom step cursor (b.stop.map (· - b.start)) s = (b.slice xs).foldl step s := by
  cases hstop : b.stop with
  | none =>
    rw [b.slice_of_stop_eq_none hstop, ← hahead]
    cases cursor with
    | none => rfl
    | some seq => exact visit_none step seq s
  | some stop =>
    rw [b.slice_of_stop_eq_some hstop, ← hahead]
    cases cursor with
    | none => rw [ahead, List.take_nil]; rfl
    | some seq => exact visit_some step seq (stop - b.start) s

/-- What a walk comes to once the elements before the start have been passed over, or have not. -/
def outcome (b : Bounds) (step : σ → α → σ) (s : σ) :
    Except Nat (Option (Linked α)) → Except Fault Unit × σ
  | .error length => (.error (.range b.start b.stop length), s)
  | .ok cursor => (.ok (), visitFrom step cursor (b.stop.map (· - b.start)) s)

theorem traverse_eq_outcome (seq : Linked α) (b : Bounds) (step : σ → α → σ) (s : σ) :
    seq.traverse b step s = outcome b step s (skip b.start 0 (some seq)) := by
  rw [traverse]
  rcases skip b.start 0 (some seq) with length | _ | rest <;> rfl

theorem traverse_eq_sweep (seq : Linked α) {b : Bounds} (hrange : b.isEmptyRange = false)
    (step : σ → α → σ) (s : σ) : seq.traverse b step s = b.sweep seq.toList step s := by
  rw [traverse_eq_outcome, Bounds.sweep, hrange, if_neg Bool.false_ne_true]
  split
  next hlt => rw [skip_of_lt b.start 0 (some seq) hlt, Nat.zero_add]; rfl
  next hle =>
    obtain ⟨rest, hskip, hahead⟩ := skip_of_le b.start 0 (some seq) (Nat.le_of_not_lt hle)
    rw [hskip, outcome, visitFrom_eq_foldl hahead]
    rfl

end Linked

/-- A target is traversed as the list of its elements, whatever its shape. -/
theorem Target.traverse_eq_sweep {target : Target α} {xs : List α} (h : target.Holds xs) (b : Bounds)
    (step : σ → α → σ) (s : σ) : target.traverse b step s = b.sweep xs step s := by
  unfold Target.traverse
  cases hrange : b.isEmptyRange with
  | true => rw [Bounds.sweep, hrange, if_pos rfl, if_pos rfl]
  | false =>
    cases target with
    | indexed seq => exact seq.traverse_eq_sweep h.1 h.2 hrange step s
    | linked seq =>
      obtain rfl : seq.toList = xs := h
      exact seq.traverse_eq_sweep hrange step s

end Hygiene
