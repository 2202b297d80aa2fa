import Hygiene.Evaluation.Primitives
import Hygiene.Proofs.Sequence.Traversal

/-!
# Slices

`Primitive.slice` is given any arguments at all, and what it answers is decided in layers: how many
arguments there are, whether the offsets are integers, whether they are negative, whether the target is a
sequence, and only then what the bounds come to in it. Each layer is a lemma here, under what the layers
before it have let through, so the order of the lemmas is the order in which one failure wins over
another.

A sequence is sliced as the list of its elements: `Value.Shaped` says what these are and how a sequence of
the same shape is made from others, and no more of a target matters (`sliceWithin_of_shaped`).

> `slice_decides`: what a slice is, for all arguments, and that lists and vectors agree.
-/

namespace Hygiene

/-! ## Shapes -/

/-- A sequence, what makes a sequence of its shape from elements, and its elements. The absent value is
the empty sequence and gives vectors. -/
inductive Value.Shaped : Value → (List Value → Value) → List Value → Prop where
  | nil : Shaped .nil .vector []
  | vector (xs : List Value) : Shaped (.vector xs) .vector xs
  | list (xs : List Value) : Shaped (.list xs) .list xs

theorem Value.Shaped.elements? {v : Value} {make : List Value → Value} {xs : List Value}
    (h : v.Shaped make xs) : v.elements? = some xs := by
  cases h <;> rfl

/-- A value that is a sequence is traversed as the list of its elements. -/
theorem Value.traverse_eq_sweep {σ : Type} {v : Value} {xs : List Value} (h : v.elements? = some xs)
    (b : Bounds) (step : σ → Value → σ) (s : σ) : v.traverse b step s = b.sweep xs step s := by
  obtain ⟨target, htarget, hholds⟩ := Value.target_of_elements? h
  rw [Value.traverse, htarget]
  exact Target.traverse_eq_sweep hholds b step s

theorem Value.target_of_not_shaped {v : Value} (h : ∀ make xs, ¬ v.Shaped make xs) :
    v.target = .error (.unsupportedTarget v.kind) := by
  cases v with
  | nil => exact absurd .nil (h .vector [])
  | vector items => exact absurd (.vector items) (h .vector items)
  | list items => exact absurd (.list items) (h .list items)
  | bool b => rfl
  | int n => rfl
  | str s => rfl

/-! ## Signs -/

namespace Bounds

theorem offset_of_neg {n : Int64} (h : n.toInt < 0) : offset n = .error (.negativeBound n) :=
  if_pos (Int64.lt_iff_toInt_lt.mpr h)

theorem offset_of_toInt {n : Int64} {a : Nat} (h : n.toInt = a) : offset n = .ok a := by
  have hnot : ¬ n < 0 := by
    intro hneg
    have hlt : n.toInt < 0 := Int64.lt_iff_toInt_lt.mp hneg
    omega
  rw [offset, if_neg hnot, h, Int.toNat_natCast]

/-- The start is looked at before the stop. -/
theorem ofSigned_of_start_neg {start : Int64} (h : start.toInt < 0) (stop : Option Int64) :
    ofSigned start stop = .error (.negativeBound start) := by
  rw [ofSigned, offset_of_neg h]

theorem ofSigned_of_stop_neg {start stop : Int64} {a : Nat} (hstart : start.toInt = a)
    (h : stop.toInt < 0) : ofSigned start (some stop) = .error (.negativeBound stop) := by
  rw [ofSigned, offset_of_toInt hstart]
  dsimp only
  rw [offset_of_neg h]

theorem stopWithin_eq_min (b : Bounds) (length : Nat) :
    b.stopWithin length = min (b.stop.getD length) length := by
  unfold stopWithin
  cases b.stop with
  | none => exact (Nat.min_self length).symm
  | some stop => rfl

theorem ofSigned_of_toInt {start : Int64} {stop : Option Int64} {a : Nat} {b : Option Nat}
    (hstart : start.toInt = a) (hstop : stop.map Int64.toInt = b.map Int.ofNat) :
    ofSigned start stop = .ok ⟨a, b⟩ := by
  rw [ofSigned, offset_of_toInt hstart]
  cases stop with
  | none =>
    obtain rfl : b = none := Option.map_eq_none_iff.mp hstop.symm
    rfl
  | some n =>
    obtain ⟨m, rfl, hm⟩ := Option.map_eq_some_iff.mp hstop.symm
    dsimp only
    rw [offset_of_toInt hm.symm]

end Bounds

namespace Primitive

/-! ## Kinds -/

theorem slice_of_length {args : List Value} (h₂ : args.length ≠ 2) (h₃ : args.length ≠ 3) :
    slice args = .error (.host "slice" ("expected 2 or 3 arguments, got " ++ args.length.repr)) := by
  match args with
  | [] | [_] => rfl
  | [_, _] => exact absurd rfl h₂
  | [_, _, _] => exact absurd rfl h₃
  | _ :: _ :: _ :: _ :: _ => rfl

/-- A start that is no integer is refused before the stop is looked at. -/
theorem slice_of_start_ne {start : Value} (h : ∀ n, start ≠ .int n) (target : Value)
    (stop : Option Value) : slice (target :: start :: stop.toList)
      = .error (.host "slice" ("expected int, got " ++ start.kind)) := by
  cases stop with
  | none => rw [Option.toList_none, slice, integer_of_ne h]
  | some stop => rw [Option.toList_some, slice, integer_of_ne h]

theorem slice_of_stop_ne {stop : Value} (h : ∀ n, stop ≠ .int n) (target : Value) (start : Int64) :
    slice [target, .int start, stop]
      = .error (.host "slice" ("expected int, got " ++ stop.kind)) := by
  have hstart : integer "slice" (.int start) = .ok start := rfl
  rw [slice, hstart]
  dsimp only
  rw [integer_of_ne h]

/-- With integers for offsets everything else is up to the target and the bounds. -/
theorem slice_of_ints (target : Value) (start : Int64) (stop : Option Int64) :
    slice (target :: .int start :: (stop.map Value.int).toList) = sliceWithin target start stop := by
  cases stop <;> rfl

/-! ## Targets -/

theorem sliceWithin_of_fault {start : Int64} {stop : Option Int64} {fault : Fault}
    (h : Bounds.ofSigned start stop = .error fault) (target : Value) :
    sliceWithin target start stop = .error (.fault fault) := by
  rw [sliceWithin, h]

theorem sliceWithin_of_not_shaped {start : Int64} {stop : Option Int64} {b : Bounds}
    (hb : Bounds.ofSigned start stop = .ok b) {target : Value}
    (h : ∀ make xs, ¬ target.Shaped make xs) :
    sliceWithin target start stop = .error (.fault (.unsupportedTarget target.kind)) := by
  rw [sliceWithin, hb]
  dsimp only
  rw [Value.traverse, Value.target_of_not_shaped h]

/-- A sequence is sliced as the list of its elements, and put together again in its shape. -/
theorem sliceWithin_of_shaped {start : Int64} {stop : Option Int64} {b : Bounds}
    (hb : Bounds.ofSigned start stop = .ok b) {target : Value} {make : List Value → Value}
    {xs : List Value} (h : target.Shaped make xs) :
    sliceWithin target start stop
      = if b.isEmptyRange then .ok (make [])
        else if b.start > xs.length then .error (.fault (.range b.start b.stop xs.length))
        else .ok (make (b.slice xs)) := by
  have hpicked : ((b.slice xs).foldl Collector.append {}).toList = b.slice xs :=
    Collector.toList_extend {} (b.slice xs)
  rw [sliceWithin, hb]
  dsimp only
  rw [Value.traverse_eq_sweep h.elements?, Bounds.sweep]
  by_cases hempty : b.isEmptyRange = true
  · rw [if_pos hempty, if_pos hempty]
    cases h <;> rfl
  · rw [if_neg hempty, if_neg hempty]
    by_cases hrange : b.start > xs.length
    · rw [if_pos hrange, if_pos hrange]
    · rw [if_neg hrange, if_neg hrange]
      dsimp only
      rw [hpicked]
      cases h <;> rfl

/-- Slices of a list and of a vector with the same elements fail alike, or have the same elements. -/
theorem sliceWithin_list_vector (xs : List Value) (start : Int64) (stop : Option Int64) :
    (∃ failure, sliceWithin (.list xs) start stop = .error failure ∧
      sliceWithin (.vector xs) start stop = .error failure) ∨
    ∃ ys, sliceWithin (.list xs) start stop = .ok (.list ys) ∧
      sliceWithin (.vector xs) start stop = .ok (.vector ys) := by
  cases hb : Bounds.ofSigned start stop with
  | error fault =>
    exact Or.inl ⟨_, sliceWithin_of_fault hb (.list xs), sliceWithin_of_fault hb (.vector xs)⟩
  | ok b =>
    rw [sliceWithin_of_shaped hb (.list xs), sliceWithin_of_shaped hb (.vector xs)]
    split
    · exact Or.inr ⟨[], rfl, rfl⟩
    · split
      · exact Or.inl ⟨_, rfl, rfl⟩
      · exact Or.inr ⟨_, rfl, rfl⟩

theorem slice_list_vector (xs : List Value) (offsets : List Value) :
    (∃ failure, slice (.list xs :: offsets) = .error failure ∧
      slice (.vector xs :: offsets) = .error failure) ∨
    ∃ ys, slice (.list xs :: offsets) = .ok (.list ys) ∧
      slice (.vector xs :: offsets) = .ok (.vector ys) := by
  match offsets with
  | [] => exact Or.inl ⟨_, rfl, rfl⟩
  | [start] =>
    rw [slice, slice]
    cases integer "slice" start with
    | error failure => exact Or.inl ⟨failure, rfl, rfl⟩
    | ok n => exact sliceWithin_list_vector xs n none
  | [start, stop] =>
    rw [slice, slice]
    cases integer "slice" start with
    | error failure => exact Or.inl ⟨failure, rfl, rfl⟩
    | ok n =>
      dsimp only
      cases integer "slice" stop with
      | error failure => exact Or.inl ⟨failure, rfl, rfl⟩
      | ok m => exact sliceWithin_list_vector xs n (some m)
  | _ :: _ :: _ :: _ => exact Or.inl ⟨_, rfl, rfl⟩

/-- **What a slice is.** Anything but two or three arguments is refused, then a start that is no integer,
then a stop that is none; then a negative start is a fault, then a negative stop; then a target that is no
sequence, whatever the bounds; then bounds that stop before they start give nothing, a start behind the
end is a fault with the true length, and otherwise the slice has the elements from the start to the stop,
or to the end if that comes first, in a sequence of the target's shape. A list and a vector with the same
elements fail alike or give the same elements, whatever else is asked for. -/
theorem slice_decides :
    (∀ args : List Value, args.length ≠ 2 → args.length ≠ 3 → slice args
      = .error (.host "slice" ("expected 2 or 3 arguments, got " ++ args.length.repr))) ∧
    (∀ (target start : Value) (stop : Option Value), (∀ n, start ≠ .int n) →
      slice (target :: start :: stop.toList)
        = .error (.host "slice" ("expected int, got " ++ start.kind))) ∧
    (∀ (target : Value) (start : Int64) (stop : Value), (∀ n, stop ≠ .int n) →
      slice [target, .int start, stop]
        = .error (.host "slice" ("expected int, got " ++ stop.kind))) ∧
    (∀ (target : Value) (start : Int64) (stop : Option Int64),
      let answer := slice (target :: .int start :: (stop.map Value.int).toList)
      (start.toInt < 0 → answer = .error (.fault (.negativeBound start))) ∧
      (∀ n, 0 ≤ start.toInt → stop = some n → n.toInt < 0 →
        answer = .error (.fault (.negativeBound n))) ∧
      ∀ (a : Nat) (b : Option Nat), start.toInt = a → stop.map Int64.toInt = b.map Int.ofNat →
        ((∀ make xs, ¬ target.Shaped make xs) →
          answer = .error (.fault (.unsupportedTarget target.kind))) ∧
        ∀ make xs, target.Shaped make xs →
          (∀ n, b = some n → n < a → answer = .ok (make [])) ∧
          ((∀ n, b = some n → a ≤ n) →
            (xs.length < a → answer = .error (.fault (.range a b xs.length))) ∧
            (a ≤ xs.length →
              answer = .ok (make (xs.extract a (min (b.getD xs.length) xs.length)))))) ∧
    ∀ xs offsets : List Value,
      (∃ failure, slice (.list xs :: offsets) = .error failure ∧
        slice (.vector xs :: offsets) = .error failure) ∨
      ∃ ys, slice (.list xs :: offsets) = .ok (.list ys) ∧
        slice (.vector xs :: offsets) = .ok (.vector ys) := by
  refine ⟨fun args h₂ h₃ => slice_of_length h₂ h₃,
    fun target start stop h => slice_of_start_ne h target stop,
    fun target start stop h => slice_of_stop_ne h target start,
    fun target start stop => ?_, slice_list_vector⟩
  intro answer
  have hanswer : answer = sliceWithin target start stop := slice_of_ints target start stop
  rw [hanswer]
  refine ⟨fun hneg => sliceWithin_of_fault (Bounds.ofSigned_of_start_neg hneg stop) target, ?_, ?_⟩
  · rintro n hstart rfl hneg
    obtain ⟨a, ha⟩ := Int.eq_ofNat_of_zero_le hstart
    exact sliceWithin_of_fault (Bounds.ofSigned_of_stop_neg ha hneg) target
  · intro a b ha hstop
    have hb := Bounds.ofSigned_of_toInt ha hstop
    refine ⟨sliceWithin_of_not_shaped hb, fun make xs hshape => ?_⟩
    rw [sliceWithin_of_shaped hb hshape]
    refine ⟨?_, fun hforwards => ?_⟩
    · rintro n rfl hlt
      exact if_pos (decide_eq_true hlt)
    · rw [if_neg (Bool.eq_false_iff.mp (Bounds.isEmptyRange_eq_false_iff.mpr hforwards))]
      refine ⟨fun hbehind => if_pos hbehind, fun hwithin => ?_⟩
      rw [if_neg (Nat.not_lt.mpr hwithin), Bounds.slice, Bounds.stopWithin_eq_min]

/-- Several things wrong at once: what is looked at first is what the answer is about. -/
theorem slice_decides_first_failure :
    let word : Value := .str "ab"
    let pair : List Value := [.int 7, .nil]
    slice [word] = .error (.host "slice" "expected 2 or 3 arguments, got 1") ∧
    slice [word, .nil, .bool true] = .error (.host "slice" "expected int, got nil") ∧
    slice [word, .int (-1), .bool true] = .error (.host "slice" "expected int, got bool") ∧
    slice [word, .int (-1), .int (-2)] = .error (.fault (.negativeBound (-1))) ∧
    slice [word, .int 3, .int (-2)] = .error (.fault (.negativeBound (-2))) ∧
    slice [word, .int 3, .int 1] = .error (.fault (.unsupportedTarget "string")) ∧
    slice [.nil, .int 3, .int 1] = .ok (.vector []) ∧
    slice [.list pair, .int 3] = .error (.fault (.range 3 none 2)) ∧
    slice [.list pair, .int 1, .int 9] = .ok (.list [.nil]) := by
  intro word pair
  obtain ⟨hcount, hstart, hstop, hints, -⟩ := slice_decides
  have hword : ∀ make xs, ¬ (Value.str "ab").Shaped make xs := fun make xs h => nomatch h
  have htext : "expected 2 or 3 arguments, got " ++ [word].length.repr
      = "expected 2 or 3 arguments, got 1" := by decide
  have hone := hcount [word] (by simp) (by simp)
  rw [htext] at hone
  refine ⟨hone, hstart word .nil (some (.bool true)) nofun,
    hstop word (-1) (.bool true) nofun, (hints word (-1) (some (-2))).1 (by decide),
    (hints word 3 (some (-2))).2.1 (-2) (by decide) rfl (by decide), ?_, ?_, ?_, ?_⟩
  · exact ((hints word 3 (some 1)).2.2 3 (some 1) rfl rfl).1 hword
  · exact (((hints .nil 3 (some 1)).2.2 3 (some 1) rfl rfl).2 .vector [] .nil).1 1 rfl (by decide)
  · exact (((((hints (.list pair) 3 none).2.2 3 none rfl rfl).2 .list pair (.list pair)).2 nofun).1
      (by decide))
  · exact (((((hints (.list pair) 1 (some 9)).2.2 1 (some 9) rfl rfl).2 .list pair
      (.list pair)).2 (fun n hn => Option.some.inj hn ▸ by decide)).2 (by decide))

end Primitive

end Hygiene
