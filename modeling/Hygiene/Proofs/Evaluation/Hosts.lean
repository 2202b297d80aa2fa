import Hygiene.Evaluation.Interpreter
import Hygiene.Proofs.Template.Occurrences

/-!
# Changing the host under an evaluation

An evaluation touches the host state only through `Interpreter.apply`. So when a map between two
kinds of host state carries every single call over (`Interpreter.Carries`), it carries whole
evaluations over: `eval_mapHost`. Two uses follow elsewhere, to leave out what a host merely notes
down and to move a run behind what has been noted before it.
-/

namespace Hygiene

namespace Outcome

variable {σ τ α β γ : Type}

/-- Look at the host state left behind through a map. -/
def mapHost (f : τ → σ) (o : Outcome τ α) : Outcome σ α := ⟨o.result, o.scope, f o.host⟩

theorem mapHost_andThen (f : τ → σ) (o : Outcome τ α) {next : α → Scope → τ → Outcome τ β}
    {next' : α → Scope → σ → Outcome σ β}
    (h : ∀ a scope host, next' a scope (f host) = (next a scope host).mapHost f) :
    (o.mapHost f).andThen next' = (o.andThen next).mapHost f := by
  obtain ⟨result, scope, host⟩ := o
  cases result with
  | ok a => exact h a scope host
  | error failure => rfl

theorem mapHost_restore (f : τ → σ) (o : Outcome τ α) (depth : Nat) :
    (o.mapHost f).restore depth = (o.restore depth).mapHost f := rfl

theorem andThen_assoc (o : Outcome σ α) (next : α → Scope → σ → Outcome σ β)
    (last : β → Scope → σ → Outcome σ γ) :
    (o.andThen next).andThen last
      = o.andThen fun a scope host => (next a scope host).andThen last := by
  obtain ⟨result, scope, host⟩ := o
  cases result <;> rfl

end Outcome

namespace Interpreter

variable {σ τ : Type}

/-- `f` carries every call under `A` over to the same call under `B`. -/
def Carries (f : τ → σ) (A : Interpreter τ) (B : Interpreter σ) : Prop :=
  ∀ function args scope host,
    B.apply function args scope (f host) = (A.apply function args scope host).mapHost f

variable {f : τ → σ} {A : Interpreter τ} {B : Interpreter σ}

theorem evalArgs_mapHost {es : List Expr}
    (h : ∀ e ∈ es, ∀ scope host, B.eval e scope (f host) = (A.eval e scope host).mapHost f) :
    ∀ (scope : Scope) (host : τ),
      B.evalArgs es scope (f host) = (A.evalArgs es scope host).mapHost f := by
  induction es with
  | nil => intro scope host; rfl
  | cons e es ih =>
    intro scope host
    rw [evalArgs, evalArgs, h e List.mem_cons_self]
    refine Outcome.mapHost_andThen f _ fun v scope host => ?_
    rw [ih fun e he => h e (List.mem_cons_of_mem _ he)]
    exact Outcome.mapHost_andThen f _ fun vs scope host => rfl

theorem evalSeq_mapHost {es : List Expr}
    (h : ∀ e ∈ es, ∀ scope host, B.eval e scope (f host) = (A.eval e scope host).mapHost f) :
    ∀ (last : Value) (scope : Scope) (host : τ),
      B.evalSeq es last scope (f host) = (A.evalSeq es last scope host).mapHost f := by
  induction es with
  | nil => intro last scope host; rfl
  | cons e es ih =>
    intro last scope host
    rw [evalSeq, evalSeq, h e List.mem_cons_self]
    exact Outcome.mapHost_andThen f _ fun v scope host =>
      ih (fun e he => h e (List.mem_cons_of_mem _ he)) v scope host

theorem evalBindings_mapHost {bs : List (Binder × Expr)}
    (h : ∀ b ∈ bs, ∀ scope host, B.eval b.2 scope (f host) = (A.eval b.2 scope host).mapHost f) :
    ∀ (scope : Scope) (host : τ),
      B.evalBindings bs scope (f host) = (A.evalBindings bs scope host).mapHost f := by
  induction bs with
  | nil => intro scope host; rfl
  | cons b bs ih =>
    intro scope host
    obtain ⟨binder, e⟩ := b
    rw [evalBindings, evalBindings, h (binder, e) List.mem_cons_self]
    exact Outcome.mapHost_andThen f _ fun v scope host =>
      ih (fun b hb => h b (List.mem_cons_of_mem _ hb)) (scope.push binder v) host

/-- **Calls carried over carry whole evaluations over.** -/
theorem eval_mapHost (hf : Carries f A B) (e : Expr) :
    ∀ (scope : Scope) (host : τ),
      B.eval e scope (f host) = (A.eval e scope host).mapHost f := by
  induction e with
  | lit v => intro scope host; rfl
  | name n => intro scope host; rw [eval, eval]; split <;> rfl
  | ref i => intro scope host; rw [eval, eval]; split <;> rfl
  | call g args ih =>
    intro scope host
    rw [eval, eval, evalArgs_mapHost ih]
    exact Outcome.mapHost_andThen f _ fun vs scope host => hf g vs scope host
  | letIn bindings body ihb ih =>
    intro scope host
    rw [eval, eval, evalBindings_mapHost ihb, ← Outcome.mapHost_restore]
    exact congrArg (fun o => Outcome.restore o scope.depth)
      (Outcome.mapHost_andThen f _ fun _ inner host => ih inner host)
  | seq items ih => intro scope host; exact evalSeq_mapHost ih .nil scope host
  | cond c t e ihc iht ihe =>
    intro scope host
    rw [eval, eval, ihc]
    refine Outcome.mapHost_andThen f _ fun v scope host => ?_
    split
    · exact iht scope host
    · exact ihe scope host

end Interpreter

end Hygiene
