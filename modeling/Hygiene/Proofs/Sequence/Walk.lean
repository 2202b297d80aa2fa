import Hygiene.Proofs.Sequence.Traversal
import Mathlib.Logic.Function.Iterate

/-!
# The walk along a chain, turn by turn

`Linked.traverse` counts with natural numbers and takes the chain apart by its constructors. A
machine has neither: its counters are words of 64 bits that can be taken below zero by mistake, its
cells are looked at through `first?` and `rest?`, and it goes round two loops that have to end.
`Walk` is that machine with a state of its own for a subtraction that fails, and `Walk.next` is one
turn of a loop.

The invariant is in the numbers: while elements are passed over, those passed and those still to pass
are the start, and while elements are shown, the word that counts down is the number still wanted.

> `settles_init`: from any bounds the walk ends with the result of `Target.traverse`, after at most
> two turns more than the chain has elements.

A turn that failed would never be left again, so none fails (`Settles.ne_underflow`).
-/

namespace Hygiene

/-! ## Words -/

/-- Subtraction of machine words; below zero there is no answer. -/
def wordSub? (a b : UInt64) : Option UInt64 :=
  if b ≤ a then some (a - b) else none

/-- Below zero is the only way to fail. -/
theorem wordSub?_of_le {a b : UInt64} (h : b ≤ a) :
    ∃ c, wordSub? a b = some c ∧ c.toNat = a.toNat - b.toNat :=
  ⟨a - b, if_pos h, UInt64.toNat_sub_of_le a b h⟩

namespace Linked

variable {α σ : Type}

/-- A walk along a chain with its counters in machine words, between two steps. -/
inductive Walk (α σ : Type) where
  /-- So many elements have been passed over. -/
  | skipping (skipped : UInt64) (cursor : Option (Linked α)) (s : σ)
  /-- So many elements are still wanted. -/
  | visiting (remaining : Option UInt64) (cursor : Option (Linked α)) (s : σ)
  | done (result : Except Fault Unit) (s : σ)
  /-- A subtraction went below zero. -/
  | underflow

namespace Walk

variable (start : UInt64) (stop : Option UInt64) (step : σ → α → σ)

/-- The bounds that the words stand for. -/
def bounds : Bounds := ⟨start.toNat, stop.map UInt64.toNat⟩

/-- A limit on the elements, less a number of them. -/
def lower? : Option UInt64 → UInt64 → Option (Option UInt64)
  | none, _ => some none
  | some limit, n => (wordSub? limit n).map some

/-- One turn of the loop that passes over, or of the loop that visits. -/
def next : Walk α σ → Walk α σ
  | skipping skipped cursor s =>
    if skipped < start then
      match cursor.filter fun here => here.first?.isSome with
      | some here => skipping (skipped + 1) here.rest? s
      | none => done (.error (.range start.toNat (stop.map UInt64.toNat) skipped.toNat)) s
    else
      match lower? stop start with
      | some remaining => visiting remaining cursor s
      | none => underflow
  | visiting remaining cursor s =>
    if remaining = some 0 then done (.ok ()) s
    else
      match cursor with
      | none => done (.ok ()) s
      | some here =>
        match here.first? with
        | none => done (.ok ()) s
        | some a =>
          match lower? remaining 1 with
          | some remaining => visiting remaining here.rest? (step s a)
          | none => underflow
  | done result s => done result s
  | underflow => underflow

/-- Where the walk starts. Bounds that end before they start are seen to at once. -/
def init (seq : Linked α) (s : σ) : Walk α σ :=
  match stop with
  | some stop => if stop < start then done (.ok ()) s else skipping 0 (some seq) s
  | none => skipping 0 (some seq) s

/-- The walk is done after no more than `k` turns, with this result and state. -/
def Settles (k : Nat) (w : Walk α σ) (p : Except Fault Unit × σ) : Prop :=
  ∃ n ≤ k, (next start stop step)^[n] w = done p.1 p.2

variable {start stop step}

theorem Settles.of_next {k : Nat} {w : Walk α σ} {p : Except Fault Unit × σ}
    (h : Settles start stop step k (next start stop step w) p) :
    Settles start stop step (k + 1) w p := by
  obtain ⟨n, hn, hrun⟩ := h
  exact ⟨n + 1, Nat.succ_le_succ hn, by rw [Function.iterate_succ_apply, hrun]⟩

theorem settles_done (k : Nat) (result : Except Fault Unit) (s : σ) :
    Settles start stop step k (done result s) (result, s) :=
  ⟨0, Nat.zero_le k, rfl⟩

/-- A walk that gets done never goes below zero, since it would stay there. -/
theorem Settles.ne_underflow {k : Nat} {w : Walk α σ} {p : Except Fault Unit × σ}
    (h : Settles start stop step k w p) (turns : Nat) :
    (next start stop step)^[turns] w ≠ underflow := by
  obtain ⟨n, -, hdone⟩ := h
  intro hunder
  have hstay : ∀ m, (next start stop step)^[m] (done p.1 p.2) = done p.1 p.2 :=
    Function.iterate_fixed rfl
  have hstuck : ∀ m, (next start stop step)^[m] underflow = underflow :=
    Function.iterate_fixed rfl
  have hboth : (next start stop step)^[turns + n] w = underflow := by
    rw [Nat.add_comm, Function.iterate_add_apply, hunder, hstuck]
  rw [Function.iterate_add_apply, hdone, hstay] at hboth
  cases hboth

theorem settles_visiting_none (k : Nat) (remaining : Option UInt64) (s : σ) :
    Settles start stop step (k + 1) (visiting remaining none s) (.ok (), s) := by
  refine Settles.of_next ?_
  have hnext : next start stop step (visiting remaining none s) = done (.ok ()) s := by
    rw [next]
    exact ite_self _
  rw [hnext]
  exact settles_done k _ s

/-- What is left of a limit that is not smaller. -/
theorem lower?_of_le {limit : Option UInt64} {n : UInt64} (h : ∀ l, limit = some l → n ≤ l) :
    ∃ fewer, lower? limit n = some fewer ∧
      fewer.map UInt64.toNat = (limit.map UInt64.toNat).map (· - n.toNat) := by
  cases limit with
  | none => exact ⟨none, rfl, rfl⟩
  | some l =>
    obtain ⟨c, hc, hnat⟩ := wordSub?_of_le (h l rfl)
    exact ⟨some c, by rw [lower?, hc]; rfl, congrArg some hnat⟩

/-! ### Visiting -/

/-- From one element to the next. The countdown stays above zero, since a count of zero has ended
the loop before. -/
theorem settles_of_first? {cell : Linked α} {a : α} (hfirst : cell.first? = some a) {k : Nat}
    (hrest : ∀ fewer s, Settles start stop step k (visiting fewer cell.rest? s)
      (.ok (), visitFrom step cell.rest? (fewer.map UInt64.toNat) s))
    (remaining : Option UInt64) (s : σ) :
    Settles start stop step (k + 1) (visiting remaining (some cell) s)
      (.ok (), cell.visit step (remaining.map UInt64.toNat) s) := by
  refine Settles.of_next ?_
  by_cases hzero : remaining = some 0
  · have hvisit : cell.visit step (some 0) s = s := by cases cell <;> rfl
    rw [hzero, next, if_pos rfl, Option.map_some, UInt64.toNat_zero, hvisit]
    exact settles_done k _ s
  · have hpos : ∀ n, remaining = some n → n.toNat ≠ 0 := by
      intro n hn hnat
      exact hzero (hn.trans (congrArg some (UInt64.toNat_inj.mp hnat)))
    have hmore : remaining.map UInt64.toNat ≠ some 0 := by
      intro h
      obtain ⟨n, hn, hnat⟩ := Option.map_eq_some_iff.mp h
      exact hpos n hn hnat
    have hone : ∀ n, remaining = some n → 1 ≤ n :=
      fun n hn => UInt64.le_iff_toNat_le.mpr (Nat.pos_of_ne_zero (hpos n hn))
    obtain ⟨fewer, hlower, hfewer⟩ := lower?_of_le hone
    rw [UInt64.toNat_one] at hfewer
    have hnext : next start stop step (visiting remaining (some cell) s)
        = visiting fewer cell.rest? (step s a) := by
      rw [next, if_neg hzero]
      simp only [hfirst, hlower]
    rw [hnext, visit_of_first? hfirst hmore, ← hfewer]
    exact hrest fewer (step s a)

/-- The loop that visits shows what is wanted, in a turn for each element and one to notice that the
chain has ended. -/
theorem settles_visiting (seq : Linked α) : ∀ (remaining : Option UInt64) (s : σ),
    Settles start stop step (seq.toList.length + 1) (visiting remaining (some seq) s)
      (.ok (), seq.visit step (remaining.map UInt64.toNat) s) := by
  induction seq with
  | vacant =>
    intro remaining s
    have hnext : next start stop step (visiting remaining (some vacant) s) = done (.ok ()) s := by
      rw [next]
      exact ite_self _
    have hvisit : vacant.visit step (remaining.map UInt64.toNat) s = s := by
      rcases remaining.map UInt64.toNat with _ | _ | n <;> rfl
    refine Settles.of_next ?_
    rw [hnext, hvisit]
    exact settles_done 0 _ s
  | last a => exact settles_of_first? rfl fun fewer s => settles_visiting_none 0 fewer s
  | cell a rest ih => exact settles_of_first? rfl ih

theorem settles_visitFrom (cursor : Option (Linked α)) (remaining : Option UInt64) (s : σ) :
    Settles start stop step ((ahead cursor).length + 1) (visiting remaining cursor s)
      (.ok (), visitFrom step cursor (remaining.map UInt64.toNat) s) := by
  cases cursor with
  | none => exact settles_visiting_none 0 remaining s
  | some seq => exact settles_visiting seq remaining s

/-! ### Passing over -/

/-- The loop that passes over comes to the start, or to the end of the chain, in a turn for each
element. The end of the bounds is not before the start here, so taking one from the other does not
go below zero. -/
theorem settles_skipping (hrange : ∀ l, stop = some l → start ≤ l) (s : σ) (n : Nat) :
    ∀ (skipped : UInt64) (cursor : Option (Linked α)), skipped.toNat + n = start.toNat →
      Settles start stop step ((ahead cursor).length + 2) (skipping skipped cursor s)
        (outcome (bounds start stop) step s (skip n skipped.toNat cursor)) := by
  induction n with
  | zero =>
    -- all passed over: the limit is worked out, and the other loop takes over
    intro skipped cursor hn
    have hover : ¬ skipped < start := by
      rw [UInt64.lt_iff_toNat_lt]
      omega
    obtain ⟨remaining, hlower, hremaining⟩ := lower?_of_le hrange
    have hnext : next start stop step (skipping skipped cursor s) = visiting remaining cursor s := by
      rw [next, if_neg hover, hlower]
    refine Settles.of_next ?_
    rw [hnext, skip, outcome, bounds, ← hremaining]
    exact settles_visitFrom cursor remaining s
  | succ n ih =>
    intro skipped cursor hn
    have hlt : skipped < start := by
      rw [UInt64.lt_iff_toNat_lt]
      omega
    have hsucc : (skipped + 1).toNat = skipped.toNat + 1 := by
      have hword := start.toNat_lt
      rw [UInt64.toNat_add, UInt64.toNat_one, Nat.mod_eq_of_lt (by omega)]
    refine Settles.of_next ?_
    rw [next, if_pos hlt]
    -- behind the last element and in an empty cell the chain has run out alike
    rcases cursor with _ | _ | a | ⟨a, rest⟩
    · exact settles_done _ _ s
    · exact settles_done _ _ s
    · have hgo := ih (skipped + 1) none (by omega)
      rw [hsucc] at hgo
      exact hgo
    · have hgo := ih (skipped + 1) (some rest) (by omega)
      rw [hsucc] at hgo
      exact hgo

/-- The whole walk, from its bounds on: it ends with what the traversal comes to, and how long it
takes does not depend on how far away the bounds are. -/
theorem settles_init (seq : Linked α) (s : σ) :
    Settles start stop step (seq.toList.length + 2) (init start stop seq s)
      ((Target.linked seq).traverse (bounds start stop) step s) := by
  by_cases hbackwards : ∃ l, stop = some l ∧ l < start
  · obtain ⟨l, rfl, hlt⟩ := hbackwards
    have hrange : (bounds start (some l)).isEmptyRange = true :=
      decide_eq_true (UInt64.lt_iff_toNat_lt.mp hlt)
    rw [init, if_pos hlt, Target.traverse, if_pos hrange]
    exact settles_done _ _ s
  · have hle : ∀ l, stop = some l → start ≤ l :=
      fun l hl => UInt64.not_lt.mp fun hlt => hbackwards ⟨l, hl, hlt⟩
    have hrange : (bounds start stop).isEmptyRange = false := by
      refine Bounds.isEmptyRange_eq_false_iff.mpr fun n hn => ?_
      obtain ⟨l, hl, rfl⟩ := Option.map_eq_some_iff.mp hn
      exact UInt64.le_iff_toNat_le.mp (hle l hl)
    have hinit : init start stop seq s = skipping 0 (some seq) s := by
      cases stop with
      | none => rfl
      | some l => exact if_neg (UInt64.not_lt.mpr (hle l rfl))
    have hstart : (0 : UInt64).toNat + start.toNat = start.toNat := Nat.zero_add _
    rw [hinit, Target.traverse, hrange, if_neg Bool.false_ne_true, traverse_eq_outcome]
    exact settles_skipping hle s start.toNat 0 (some seq) hstart

end Walk

end Linked

/-! ## Whatever the container -/

/-- **A traversal is one function of the elements.** Every target that holds a list is traversed like
this list, and so is every value that is a sequence; and the walk along a chain, with counters of 64
bits, gets there without a subtraction below zero, in two turns more than there are elements at the
most. -/
theorem traverse_containers {α σ : Type} :
    (∀ (target : Target α) (xs : List α), target.Holds xs →
      ∀ (b : Bounds) (step : σ → α → σ) (s : σ),
        target.traverse b step s = b.sweep xs step s) ∧
    (∀ (v : Value) (xs : List Value), v.elements? = some xs →
      ∀ (b : Bounds) (step : σ → Value → σ) (s : σ),
        v.traverse b step s = b.sweep xs step s) ∧
    (∀ (seq : Linked α) (start : UInt64) (stop : Option UInt64) (step : σ → α → σ) (s : σ),
      Linked.Walk.Settles start stop step (seq.toList.length + 2)
          (Linked.Walk.init start stop seq s)
          ((Linked.Walk.bounds start stop).sweep seq.toList step s) ∧
        ∀ turns, (Linked.Walk.next start stop step)^[turns] (Linked.Walk.init start stop seq s)
          ≠ .underflow) := by
  refine ⟨fun target xs h b step s => ?_, fun v xs h b step s => ?_,
    fun seq start stop step s => ?_⟩
  · exact Target.traverse_eq_sweep h b step s
  · obtain ⟨target, htarget, hholds⟩ := Value.target_of_elements? h
    rw [Value.traverse, htarget]
    exact Target.traverse_eq_sweep hholds b step s
  · have hholds : (Target.linked seq).Holds seq.toList := rfl
    have hsettles : Linked.Walk.Settles start stop step (seq.toList.length + 2)
        (Linked.Walk.init start stop seq s)
        ((Target.linked seq).traverse (Linked.Walk.bounds start stop) step s) :=
      Linked.Walk.settles_init seq s
    refine ⟨?_, hsettles.ne_underflow⟩
    rwa [← Target.traverse_eq_sweep hholds]

/-- A chain without an end cell, a list and `nil`, each with a start that its elements do not reach:
behind bounds that end early it does not matter, otherwise it is a fault with the true length. -/
theorem traverse_containers_behind_end :
    let note : List Value → Value → List Value := fun seen v => seen ++ [v]
    let chain : Linked Value := .cell (.int 1) (.last (.int 2))
    (Target.linked chain).traverse ⟨5, some 3⟩ note [] = (.ok (), []) ∧
      (Value.list [.int 1, .int 2]).traverse ⟨3, none⟩ note [] = (.error (.range 3 none 2), []) ∧
      Value.nil.traverse ⟨1, some 4⟩ note [] = (.error (.range 1 (some 4) 0), []) ∧
      Linked.Walk.Settles 3 none note 4 (Linked.Walk.init 3 none chain [])
        (.error (.range 3 none 2), []) := by
  intro note chain
  obtain ⟨htarget, hvalue, hwalk⟩ := traverse_containers (α := Value) (σ := List Value)
  refine ⟨?_, ?_, ?_, (hwalk chain 3 none note []).1⟩
  · exact htarget (.linked chain) [.int 1, .int 2] rfl ⟨5, some 3⟩ note []
  · exact hvalue (.list [.int 1, .int 2]) [.int 1, .int 2] rfl ⟨3, none⟩ note []
  · exact hvalue .nil [] rfl ⟨1, some 4⟩ note []

end Hygiene
