import Hygiene.Evaluation.Interpreter
import Hygiene.Proofs.Template.Occurrences

/-!
# Evaluation gives the scope back

One scope is threaded through everything that `eval` runs, and only a `letIn` takes anything off it
again. `eval_scope` says that this is enough: whatever the expression and however it ends, the scope
left behind is the scope it was given. While the bindings of a `letIn` are under way the scope has
the one given at its bottom (`Scope.On`), which is what makes the truncation exact.
-/

namespace Hygiene

namespace Scope

/-- `inner` is `s` with further bindings pushed on top. -/
def On (inner s : Scope) : Prop := s.bindings <:+ inner.bindings

theorem On.refl (s : Scope) : s.On s := List.suffix_refl _

theorem On.trans {inner mid s : Scope} (h₁ : inner.On mid) (h₂ : mid.On s) : inner.On s :=
  List.IsSuffix.trans h₂ h₁

theorem on_push (s : Scope) (b : Binder) (v : Value) : (s.push b v).On s :=
  List.suffix_cons _ _

/-- Going back to the depth of the scope at the bottom takes off all that stands on it. -/
theorem On.truncate {inner s : Scope} (h : inner.On s) : inner.truncate s.depth = s := by
  obtain ⟨pushed, hpushed⟩ := h
  have hcount : inner.bindings.length - s.bindings.length = pushed.length := by
    rw [← hpushed, List.length_append]
    omega
  rw [Scope.truncate, depth, depth, hcount, ← hpushed, List.drop_left]

end Scope

namespace Outcome

variable {σ α β : Type}

theorem scope_andThen {o : Outcome σ α} {next : α → Scope → σ → Outcome σ β} {s : Scope}
    (ho : o.scope = s) (hnext : ∀ a host, (next a s host).scope = s) :
    (o.andThen next).scope = s := by
  obtain ⟨result, scope, host⟩ := o
  cases result with
  | ok a =>
    rw [andThen_ok, show scope = s from ho]
    exact hnext a host
  | error failure => exact ho

theorem on_andThen {o : Outcome σ α} {next : α → Scope → σ → Outcome σ β} {s : Scope}
    (ho : o.scope.On s) (hnext : ∀ a mid host, mid.On s → (next a mid host).scope.On s) :
    (o.andThen next).scope.On s := by
  obtain ⟨result, scope, host⟩ := o
  cases result with
  | ok a => exact hnext a scope host ho
  | error failure => exact ho

end Outcome

namespace Interpreter

variable {σ : Type} (interp : Interpreter σ)

@[simp] theorem apply_scope (function : String) (args : List Value) (scope : Scope) (host : σ) :
    (interp.apply function args scope host).scope = scope := by
  unfold apply
  split <;> rfl

theorem evalArgs_scope {es : List Expr}
    (h : ∀ e ∈ es, ∀ scope host, (interp.eval e scope host).scope = scope) :
    ∀ (scope : Scope) (host : σ), (interp.evalArgs es scope host).scope = scope := by
  induction es with
  | nil => intro scope host; rfl
  | cons e es ih =>
    intro scope host
    rw [evalArgs]
    refine Outcome.scope_andThen (h e List.mem_cons_self scope host) fun v host => ?_
    exact Outcome.scope_andThen (ih (fun e he => h e (List.mem_cons_of_mem _ he)) scope host)
      fun vs host => rfl

theorem evalSeq_scope {es : List Expr}
    (h : ∀ e ∈ es, ∀ scope host, (interp.eval e scope host).scope = scope) :
    ∀ (last : Value) (scope : Scope) (host : σ),
      (interp.evalSeq es last scope host).scope = scope := by
  induction es with
  | nil => intro last scope host; rfl
  | cons e es ih =>
    intro last scope host
    rw [evalSeq]
    exact Outcome.scope_andThen (h e List.mem_cons_self scope host)
      fun v host => ih (fun e he => h e (List.mem_cons_of_mem _ he)) v scope host

/-- Bindings only ever push, also when one of them fails. -/
theorem evalBindings_on {bs : List (Binder × Expr)}
    (h : ∀ b ∈ bs, ∀ scope host, (interp.eval b.2 scope host).scope = scope) :
    ∀ (scope : Scope) (host : σ), (interp.evalBindings bs scope host).scope.On scope := by
  induction bs with
  | nil => intro scope host; exact Scope.On.refl scope
  | cons b bs ih =>
    intro scope host
    obtain ⟨binder, e⟩ := b
    have he : (interp.eval e scope host).scope.On scope := by
      rw [h (binder, e) List.mem_cons_self scope host]
      exact Scope.On.refl scope
    have hrest := ih fun b hb => h b (List.mem_cons_of_mem _ hb)
    rw [evalBindings]
    refine Outcome.on_andThen he fun v mid host hmid => ?_
    exact ((hrest (mid.push binder v) host).trans (Scope.on_push mid binder v)).trans hmid

/-- **The scope comes back.** An evaluation leaves the scope exactly as it was, with a value or with
any failure raised at any depth. -/
theorem eval_scope (e : Expr) :
    ∀ (scope : Scope) (host : σ), (interp.eval e scope host).scope = scope := by
  induction e with
  | lit v => intro scope host; rfl
  | name n => intro scope host; rw [eval]; split <;> rfl
  | ref i => intro scope host; rw [eval]; split <;> rfl
  | call f args ih =>
    intro scope host
    rw [eval]
    exact Outcome.scope_andThen (evalArgs_scope interp ih scope host)
      fun vs host => apply_scope interp f vs scope host
  | letIn bindings body ihb ih =>
    intro scope host
    rw [eval]
    refine Scope.On.truncate (Outcome.on_andThen (evalBindings_on interp ihb scope host) ?_)
    intro _ inner host hinner
    rw [ih inner host]
    exact hinner
  | seq items ih => intro scope host; exact evalSeq_scope interp ih .nil scope host
  | cond c t e ihc iht ihe =>
    intro scope host
    rw [eval]
    refine Outcome.scope_andThen (ihc scope host) fun v host => ?_
    split
    · exact iht scope host
    · exact ihe scope host

end Interpreter

end Hygiene
