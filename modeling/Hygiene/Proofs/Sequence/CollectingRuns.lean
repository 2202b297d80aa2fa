import Hygiene.Proofs.Sequence.Collecting
import Mathlib.Data.List.Forall2

/-!
# Nothing sent to a collector is lost

A `ScopeRun` is a program at work on groups of collectors: it starts with one, sends elements to names
that may or may not be declared, takes what has come together so far and copies whole groups. What it
should find is known without any of them, from the operations alone: `ScopeRun.histories` lists what
each group has been sent, and a copy has been sent what its original had been.

That every group holds its history goes through one operation (`ScopeRun.Tracks.step`) and so through
every run (`ScopeRun.tracks_run`).

> `ScopeRun.collected_as_sent`: a group is made exactly from distinct names, and in every run each
> reply is what the operations before it call for, whatever comes later.
-/

namespace Hygiene

open CollectorScope (Act Reply Holds sentTo contents)

/-- An operation of a run, on the group with a number. -/
inductive ScopeOperation (α : Type) where
  | act (k : Nat) (a : Act α)
  /-- Copy a group; the copy gets the next number. -/
  | clone (k : Nat)

/-- A program at work on groups of collectors: the groups there are, and the answers so far. -/
structure ScopeRun (α : Type) where
  scopes : List (CollectorScope α)
  replies : List (Reply α) := []

namespace ScopeRun

variable {α : Type}

def step (run : ScopeRun α) : ScopeOperation α → ScopeRun α
  | .act k a =>
    match run.scopes[k]? with
    | none => ⟨run.scopes, run.replies ++ [.absent]⟩
    | some scope => ⟨run.scopes.set k (scope.act a).2, run.replies ++ [(scope.act a).1]⟩
  | .clone k =>
    match run.scopes[k]? with
    | none => ⟨run.scopes, run.replies ++ [.absent]⟩
    | some scope => ⟨run.scopes ++ [scope], run.replies ++ [.cloned]⟩

/-- Do operations one after another, with a first group to start with. -/
def run (scope : CollectorScope α) (ops : List (ScopeOperation α)) : ScopeRun α :=
  ops.foldl step ⟨[scope], []⟩

/-- Note what an operation sends, group by group. -/
def record (histories : List (List (String × α))) :
    ScopeOperation α → List (List (String × α))
  | .act k a => histories.modify k (· ++ a.sends)
  | .clone k => histories ++ histories[k]?.toList

/-- What each group has been sent, with the names it was sent to. A copy has been sent what its original
had been. -/
def histories (ops : List (ScopeOperation α)) : List (List (String × α)) := ops.foldl record [[]]

/-- The answer that an operation should give after what has been sent. -/
def reply (names : List String) (histories : List (List (String × α))) :
    ScopeOperation α → Reply α
  | .act k a =>
    match histories[k]? with
    | none => .absent
    | some sent => a.reply names sent
  | .clone k =>
    match histories[k]? with
    | none => .absent
    | some _ => .cloned

/-- Every group holds what it has been sent. -/
def Tracks (names : List String) (histories : List (List (String × α))) (run : ScopeRun α) : Prop :=
  List.Forall₂ (Holds names) histories run.scopes

/-- Related lists have related members at a place, or none there on either side. -/
theorem forall₂_getElem? {β γ : Type} {R : β → γ → Prop} {bs : List β} {cs : List γ}
    (h : List.Forall₂ R bs cs) (k : Nat) :
    (bs[k]? = none ∧ cs[k]? = none) ∨ ∃ b c, bs[k]? = some b ∧ cs[k]? = some c ∧ R b c := by
  induction h generalizing k with
  | nil => exact Or.inl ⟨rfl, rfl⟩
  | @cons b c _ _ hfirst _ ih =>
    cases k with
    | zero => exact Or.inr ⟨b, c, rfl, rfl, hfirst⟩
    | succ k => exact ih k

/-- Related lists stay related when members at one place are replaced by related ones. -/
theorem forall₂_modify_set {β γ : Type} {R : β → γ → Prop} {bs : List β} {cs : List γ}
    (h : List.Forall₂ R bs cs) {k : Nat} {f : β → β} {c : γ}
    (hk : ∀ b, bs[k]? = some b → R (f b) c) : List.Forall₂ R (bs.modify k f) (cs.set k c) := by
  induction h generalizing k with
  | nil => rw [List.modify_nil, List.set_nil]; exact .nil
  | @cons b _ _ _ hfirst hrest ih =>
    cases k with
    | zero => exact .cons (hk b rfl) hrest
    | succ k => exact .cons hfirst (ih hk)

namespace Tracks

variable {names : List String} {histories : List (List (String × α))} {run : ScopeRun α}

/-- Every group still holds what it has been sent. -/
theorem step (h : Tracks names histories run) (op : ScopeOperation α) :
    Tracks names (record histories op) (run.step op) := by
  cases op with
  | act k a =>
    rcases forall₂_getElem? h k with ⟨hsent, hscope⟩ | ⟨sent, scope, hsent, hscope, hholds⟩
    · rw [record, ScopeRun.step, hscope, List.modify_eq_self (List.getElem?_eq_none_iff.mp hsent)]
      exact h
    · rw [record, ScopeRun.step, hscope]
      refine forall₂_modify_set h fun sent' hsent' => ?_
      obtain rfl : sent = sent' := Option.some.inj (hsent.symm.trans hsent')
      exact hholds.act a
  | clone k =>
    rcases forall₂_getElem? h k with ⟨hsent, hscope⟩ | ⟨sent, scope, hsent, hscope, hholds⟩
    · rw [record, ScopeRun.step, hscope, hsent, Option.toList_none, List.append_nil]
      exact h
    · rw [record, ScopeRun.step, hscope, hsent]
      exact List.rel_append h (.cons hholds .nil)

/-- The answer given is the one called for. -/
theorem replies_step (h : Tracks names histories run) (op : ScopeOperation α) :
    (run.step op).replies = run.replies ++ [reply names histories op] := by
  cases op with
  | act k a =>
    rw [ScopeRun.step, ScopeRun.reply]
    rcases forall₂_getElem? h k with ⟨hsent, hscope⟩ | ⟨sent, scope, hsent, hscope, hholds⟩
    · rw [hsent, hscope]
    · rw [hsent, hscope]
      exact congrArg (run.replies ++ [·]) (hholds.reply a)
  | clone k =>
    rw [ScopeRun.step, ScopeRun.reply]
    rcases forall₂_getElem? h k with ⟨hsent, hscope⟩ | ⟨sent, scope, hsent, hscope, -⟩
    · rw [hsent, hscope]
    · rw [hsent, hscope]

end Tracks

section Run

variable {names : List String} {scope : CollectorScope α}

theorem run_append (ops : List (ScopeOperation α)) (op : ScopeOperation α) :
    run scope (ops ++ [op]) = (run scope ops).step op := List.foldl_concat ..

theorem histories_append (ops : List (ScopeOperation α)) (op : ScopeOperation α) :
    histories (ops ++ [op]) = record (histories ops) op := List.foldl_concat ..

/-- A group that starts empty, and every copy of it, holds what it has been sent, along any run. -/
theorem tracks_run (h : Holds names [] scope) (ops : List (ScopeOperation α)) :
    Tracks names (histories ops) (run scope ops) := by
  induction ops using List.reverseRecOn with
  | nil => exact .cons h .nil
  | append_singleton ops op ih =>
    rw [run_append, histories_append]
    exact ih.step op

theorem replies_run_append (h : Holds names [] scope) (ops : List (ScopeOperation α))
    (op : ScopeOperation α) :
    (run scope (ops ++ [op])).replies = (run scope ops).replies ++ [reply names (histories ops) op] := by
  rw [run_append, (tracks_run h ops).replies_step]

/-- Every operation has its answer. -/
theorem length_replies_run (h : Holds names [] scope) (ops : List (ScopeOperation α)) :
    (run scope ops).replies.length = ops.length := by
  induction ops using List.reverseRecOn with
  | nil => rfl
  | append_singleton ops op ih =>
    rw [replies_run_append h, List.length_append, List.length_append, ih]
    rfl

/-- **An answer once given stays what it was**: it is the one that the operations before it call for. -/
theorem getElem?_replies_run (h : Holds names [] scope) {ops : List (ScopeOperation α)} {j : Nat}
    {op : ScopeOperation α} (hop : ops[j]? = some op) :
    (run scope ops).replies[j]? = some (reply names (histories (ops.take j)) op) := by
  induction ops using List.reverseRecOn with
  | nil => cases hop
  | append_singleton ops last ih =>
    have hlength := length_replies_run h ops
    rw [replies_run_append h]
    by_cases hj : j < ops.length
    · rw [List.getElem?_append_left (hlength ▸ hj), List.take_append_of_le_length (Nat.le_of_lt hj)]
      rw [List.getElem?_append_left hj] at hop
      exact ih hop
    · obtain rfl : j = ops.length := by
        have := (List.getElem?_eq_some_iff.mp hop).1
        rw [List.length_append, List.length_singleton] at this
        omega
      rw [List.getElem?_concat_length] at hop
      obtain rfl := Option.some.inj hop
      rw [← hlength, List.getElem?_concat_length, hlength, List.take_left]

/-- Later operations add answers and take none back. -/
theorem replies_run_prefix (h : Holds names [] scope) (ops more : List (ScopeOperation α)) :
    (run scope ops).replies <+: (run scope (ops ++ more)).replies := by
  induction more using List.reverseRecOn with
  | nil => simp only [List.append_nil, List.prefix_refl]
  | append_singleton more op ih =>
    rw [← List.append_assoc, replies_run_append h]
    exact ih.trans (List.prefix_append ..)

end Run

/-- **Groups of collectors lose, mix and reorder nothing.** A group is made exactly from distinct names,
and other names are refused for the first one that repeats an earlier one. In every run from a group that
has been made, each operation is answered as the operations before it call for, and the answer stays.
At the end every group, copies included, has its names in the order of declaration, finds under each of
them what was sent to it in the order sent and nothing under any other name, gives one and the same map
when it is looked at and when it is taken apart, refuses exactly the names that are not declared, and is
left alone by what is done with these. -/
theorem collected_as_sent (names : List String) :
    ((∃ scope : CollectorScope α, CollectorScope.ofNames names = .ok scope) ↔ names.Nodup)
      ∧ (∀ fault, (CollectorScope.ofNames names : Except Fault (CollectorScope α)) = .error fault ↔
        ∃ before name behind, names = before ++ name :: behind ∧ before.Nodup ∧ name ∈ before
          ∧ fault = .duplicateName name .collectorScope)
      ∧ ∀ scope : CollectorScope α, CollectorScope.ofNames names = .ok scope →
        ∀ ops : List (ScopeOperation α),
          (run scope ops).replies.length = ops.length
          ∧ (∀ j op, ops[j]? = some op →
            (run scope ops).replies[j]? = some (reply names (histories (ops.take j)) op))
          ∧ (∀ more, (run scope ops).replies <+: (run scope (ops ++ more)).replies)
          ∧ (run scope ops).scopes.length = (histories ops).length
          ∧ ∀ (k : Nat) (s : CollectorScope α) (sent : List (String × α)),
            (run scope ops).scopes[k]? = some s → (histories ops)[k]? = some sent →
            s.names = names
            ∧ (∀ name, (s.get? name).map Collector.toList
              = if name ∈ names then some (sentTo name sent) else none)
            ∧ s.finalizeAll = contents names sent
            ∧ s.intoFinalized = contents names sent
            ∧ (∀ name x fault, s.append name x = .error fault ↔
              name ∉ names ∧ fault = .unknownCollector name)
            ∧ (∀ name fault, s.finalize name = .error fault ↔
              name ∉ names ∧ fault = .unknownCollector name)
            ∧ ∀ (a : Act α) name, a.target? = some name → name ∉ names → (s.act a).2 = s := by
  refine ⟨CollectorScope.exists_ofNames_iff, fun _ => CollectorScope.ofNames_eq_error_iff, ?_⟩
  intro scope hscope ops
  have hnames : names.Nodup := CollectorScope.exists_ofNames_iff.mp ⟨scope, hscope⟩
  obtain rfl : CollectorScope.empties names = scope := by
    rw [CollectorScope.ofNames_of_nodup hnames] at hscope
    exact Except.ok.inj hscope
  have hstart := CollectorScope.holds_empties (α := α) names
  have htracks := tracks_run hstart ops
  refine ⟨length_replies_run hstart ops, fun j op hop => getElem?_replies_run hstart hop,
    replies_run_prefix hstart ops, htracks.length_eq.symm, fun k s sent hs hsent => ?_⟩
  have hholds : Holds names sent s := by
    rcases forall₂_getElem? htracks k with ⟨hnone, -⟩ | ⟨sent', s', hsent', hs', hholds⟩
    · rw [hsent] at hnone; cases hnone
    · obtain rfl := Option.some.inj (hsent.symm.trans hsent')
      obtain rfl := Option.some.inj (hs.symm.trans hs')
      exact hholds
  exact ⟨hholds.names_eq, hholds.get?, hholds, (hholds.intoFinalized_eq hnames).trans hholds,
    fun _ _ _ => hholds.append_eq_error_iff, fun _ _ => hholds.finalize_eq_error_iff,
    fun _ _ => hholds.act_of_not_mem⟩

/-- A snapshot taken before a copy is made and both go on, with sends to a name that is not declared in
between. -/
theorem collected_as_sent_copied :
    let names := ["left", "right"]
    let scope : CollectorScope Nat := .empties names
    let ops : List (ScopeOperation Nat) := [.act 0 (.append "left" 1), .act 0 (.append "other" 9),
      .act 0 (.finalize "left"), .clone 0, .act 1 (.extend "left" [2, 3]), .act 0 (.append "right" 4),
      .act 0 (.extend "other" [7]), .act 1 (.append "left" 1)]
    CollectorScope.ofNames names = .ok scope
      ∧ (run scope ops).replies[1]? = some (.appended (.error (.unknownCollector "other")))
      ∧ (run scope ops).replies[2]? = some (.snapshot (.ok [1]))
      ∧ (∀ s, (run scope ops).scopes[0]? = some s →
        s.intoFinalized = ⟨[("left", [1]), ("right", [4])]⟩)
      ∧ ∀ s, (run scope ops).scopes[1]? = some s →
        s.intoFinalized = ⟨[("left", [1, 2, 3, 1]), ("right", [])]⟩ := by
  intro names scope ops
  have hscope : CollectorScope.ofNames names = .ok scope := rfl
  obtain ⟨-, hreplies, -, -, hscopes⟩ := (collected_as_sent (α := Nat) names).2.2 scope hscope ops
  refine ⟨hscope, hreplies 1 _ rfl, hreplies 2 _ rfl, fun s hs => ?_, fun s hs => ?_⟩
  · exact (hscopes 0 s _ hs rfl).2.2.2.1
  · exact (hscopes 1 s _ hs rfl).2.2.2.1

end ScopeRun

end Hygiene
