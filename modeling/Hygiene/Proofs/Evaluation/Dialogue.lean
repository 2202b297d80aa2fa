import Hygiene.Proofs.Evaluation.Observation

/-!
# Evaluation as a dialogue with the host

All that an evaluation learns from the host is the values that its calls come back with. So it can be
written down before any host is known, as a tree: it either has ended, or it asks for a call and goes on
in a way that depends on the value (`Expr.dialogue`). There is no branch for a call that fails, because
nothing ever comes behind one.

> `Interpreter.observe_eq_play`: what a run shows is the dialogue of the expression, held with the host.

Whatever is claimed of every host then follows by induction on the tree, in which nothing is left of
scopes, bindings and choices.
-/

namespace Hygiene

/-- To go on by ending with the value is to end. -/
theorem Observation.andThen_done {σ α : Type} (o : Observation σ α) : o.andThen done = o := by
  obtain ⟨result, calls, host⟩ := o
  cases result with
  | error failure => rfl
  | ok a => simp only [andThen, done, List.append_nil]

/-- What it shows to make a call. -/
def Interpreter.answer {σ : Type} (interp : Interpreter σ) (call : HostCall) (host : σ) :
    Observation σ Value :=
  interp.observeCall call.function call.args host

/-- An evaluation in front of any host. -/
inductive Dialogue (α : Type) where
  | done (result : Except Failure α)
  /-- Ask for a call, and go on if a value comes back. -/
  | ask (call : HostCall) (next : Value → Dialogue α)

namespace Dialogue

variable {σ α β γ : Type}

/-- Go on with the value that a dialogue ends with, if it ends with one. -/
def andThen : Dialogue α → (α → Dialogue β) → Dialogue β
  | done (.ok a), next => next a
  | done (.error failure), _ => done (.error failure)
  | ask call further, next => ask call fun v => (further v).andThen next

theorem andThen_assoc (d : Dialogue α) (next : α → Dialogue β) (last : β → Dialogue γ) :
    (d.andThen next).andThen last = d.andThen fun a => (next a).andThen last := by
  induction d with
  | done result => cases result <;> rfl
  | ask call further ih =>
    simp only [andThen, ask.injEq, true_and]
    exact funext ih

/-- Hold a dialogue with a host. -/
def play (interp : Interpreter σ) : Dialogue α → σ → Observation σ α
  | done result, host => ⟨result, [], host⟩
  | ask call next, host =>
    (interp.answer call host).andThen fun v host => (next v).play interp host

theorem play_andThen (interp : Interpreter σ) (d : Dialogue α) (next : α → Dialogue β) :
    ∀ host : σ, (d.andThen next).play interp host
      = (d.play interp host).andThen fun a host => (next a).play interp host := by
  induction d with
  | done result =>
    intro host
    cases result with
    | ok a => rfl
    | error failure => rfl
  | ask call further ih =>
    intro host
    rw [andThen, play, play, Observation.andThen_assoc]
    exact Observation.andThen_congr _ fun v host => ih v host

end Dialogue

/-! ## The dialogue of an expression -/

namespace Expr

mutual

/-- What evaluating an expression asks of the host, and what it ends with. -/
def dialogue : Expr → Scope → Dialogue Value
  | lit v, _ => .done (.ok v)
  | name n, scope =>
    match scope.lookupName? n with
    | some v => .done (.ok v)
    | none => .done (.error (.unresolvedName n))
  | ref i, scope =>
    match scope.lookupIdent? i with
    | some v => .done (.ok v)
    | none => .done (.error (.unbound i))
  | call f args, scope =>
    (dialogueEach args scope).andThen fun vs => .ask ⟨f, vs⟩ fun v => .done (.ok v)
  | letIn bindings body, scope =>
    (dialogueBindings bindings scope).andThen fun inner => dialogue body inner
  | seq items, scope =>
    (dialogueEach items scope).andThen fun vs => .done (.ok (vs.getLastD .nil))
  | cond c t e, scope =>
    (dialogue c scope).andThen fun v => if v.isTruthy then dialogue t scope else dialogue e scope

/-- That of several expressions in order, each in one and the same scope. -/
def dialogueEach : List Expr → Scope → Dialogue (List Value)
  | [], _ => .done (.ok [])
  | e :: es, scope =>
    (dialogue e scope).andThen fun v =>
      (dialogueEach es scope).andThen fun vs => .done (.ok (v :: vs))

/-- That of the values of bindings, each with the earlier ones pushed; it ends with the scope. -/
def dialogueBindings : List (Binder × Expr) → Scope → Dialogue Scope
  | [], scope => .done (.ok scope)
  | (b, e) :: rest, scope =>
    (dialogue e scope).andThen fun v => dialogueBindings rest (scope.push b v)

end

theorem dialogue_letIn_cons (b : Binder) (e : Expr) (rest : List (Binder × Expr)) (body : Expr)
    (scope : Scope) :
    (letIn ((b, e) :: rest) body).dialogue scope
      = (e.dialogue scope).andThen fun v => (letIn rest body).dialogue (scope.push b v) := by
  rw [dialogue, dialogueBindings, Dialogue.andThen_assoc]
  rfl

end Expr

namespace Interpreter

variable {σ : Type} (interp : Interpreter σ)

theorem observeEach_eq_play {es : List Expr} {scope : Scope}
    (h : ∀ e ∈ es, ∀ host : σ, interp.observe e scope host = (e.dialogue scope).play interp host) :
    ∀ host : σ, interp.observeEach es scope host
      = (Expr.dialogueEach es scope).play interp host := by
  induction es with
  | nil => intro host; rfl
  | cons e es ih =>
    intro host
    rw [observeEach, Expr.dialogueEach, Dialogue.play_andThen, h e List.mem_cons_self]
    refine Observation.andThen_congr _ fun v host => ?_
    rw [Dialogue.play_andThen, ih fun e he => h e (List.mem_cons_of_mem _ he)]
    rfl

/-- **What a run shows is a dialogue**, held with the host: one for the expression and the scope,
whichever host it is. -/
theorem observe_eq_play (e : Expr) : ∀ (scope : Scope) (host : σ),
    interp.observe e scope host = (e.dialogue scope).play interp host := by
  induction e using Expr.inductPeel with
  | lit v => intro scope host; rfl
  | name n =>
    intro scope host
    rw [observe_name, Expr.dialogue]
    cases scope.lookupName? n <;> rfl
  | ref i =>
    intro scope host
    rw [observe_ref, Expr.dialogue]
    cases scope.lookupIdent? i <;> rfl
  | call f args ih =>
    intro scope host
    rw [observe_call, interp.observeEach_eq_play fun e he => ih e he scope, Expr.dialogue,
      Dialogue.play_andThen]
    exact Observation.andThen_congr _ fun vs host => (Observation.andThen_done _).symm
  | letNil body ih =>
    intro scope host
    rw [observe_letIn_nil, ih]
    rfl
  | letCons b e rest body ihe ih =>
    intro scope host
    rw [observe_letIn_cons, ihe, Expr.dialogue_letIn_cons, Dialogue.play_andThen]
    exact Observation.andThen_congr _ fun v host => ih _ host
  | seq items ih =>
    intro scope host
    rw [observe_seq, interp.observeEach_eq_play fun e he => ih e he scope, Expr.dialogue,
      Dialogue.play_andThen]
    rfl
  | cond c t e ihc iht ihe =>
    intro scope host
    rw [observe_cond, ihc, Expr.dialogue, Dialogue.play_andThen]
    refine Observation.andThen_congr _ fun v host => ?_
    rw [iht, ihe]
    cases v.isTruthy <;> rfl

end Interpreter

end Hygiene
