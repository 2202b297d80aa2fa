import Hygiene.Proofs.Evaluation.Hosts
import Hygiene.Proofs.Evaluation.Restoring
import Mathlib.Logic.Function.Iterate

/-!
# Evaluation, turn by turn

`Interpreter.eval` says what an evaluation comes to, and nothing about the scope while it is under way. A
`Machine` has that scope: there is one of it, changed in place, beside a stack of frames that say what is
left to do around the expression that runs now. `Interpreter.turn` is one turn of the machine, and only two
kinds of turn touch the scope. A value that comes back to a binding is pushed, and when a `letIn` is left,
with a value or with a failure, the scope goes back to the depth it had when the `letIn` was entered.

The machine comes to what `eval` says, whatever frames wait around the expression (`reaches_eval`). What
keeps the scope from being taken back too far is a fact about the frames: no `letIn` under way was entered
below the depth at the start (`Machine.StandsOn`). One turn keeps it (`StandsOn.turn`), so every number of
turns does (`StandsOn.iterate`).

> `eval_restores_scope`: an evaluation gives the scope back as it was, and on the way all that was in it
> stays where it is, below whatever has been pushed.
-/

namespace Hygiene

namespace Scope

/-- Going back to a depth that is not below a scope at the bottom leaves that scope there. -/
theorem On.truncate_of_le {inner s : Scope} (h : inner.On s) {depth : Nat} (hle : s.depth ≤ depth) :
    (inner.truncate depth).On s := by
  obtain ⟨pushed, hpushed⟩ := h
  have hcount : inner.depth - depth ≤ pushed.length := by
    have hlength : inner.depth = pushed.length + s.depth := by
      unfold Scope.depth
      rw [← hpushed, List.length_append]
    omega
  show s.bindings <:+ inner.bindings.drop (inner.depth - depth)
  rw [← hpushed, List.drop_append_of_le_length hcount]
  exact List.suffix_append _ _

theorem On.depth_le {inner s : Scope} (h : inner.On s) : s.depth ≤ inner.depth :=
  List.IsSuffix.length_le h

end Scope

/-! ## The machine -/

/-- What is left to do around an expression that is under way. -/
inductive Frame where
  /-- The call it is an argument of: the values of those before it, and those behind it. -/
  | argument (function : String) (done : List Value) (rest : List Expr)
  /-- The binder it is the value for, the bindings behind it, and the body. -/
  | binding (b : Binder) (rest : List (Binder × Expr)) (body : Expr)
  /-- The items of a sequence behind it. -/
  | item (rest : List Expr)
  /-- The two expressions that it decides between. -/
  | branch (yes no : Expr)
  /-- The depth at which a `letIn` around it was entered. -/
  | leave (depth : Nat)

/-- What is to be done next. -/
inductive Task where
  | run (e : Expr)
  /-- Run the arguments of a call that have no values yet, and then call. -/
  | call (function : String) (done : List Value) (rest : List Expr)
  /-- Run the bindings of a `letIn` that are not in force yet, and then its body. -/
  | bind (rest : List (Binder × Expr)) (body : Expr)
  /-- Run what is left of a sequence; the value of the item before is at hand. -/
  | go (last : Value) (rest : List Expr)
  /-- Hand a result to the innermost frame. -/
  | give (result : Except Failure Value)

/-- An evaluation under way. -/
structure Machine (σ : Type) where
  task : Task
  /-- The frames around the task, the innermost first. -/
  frames : List Frame
  scope : Scope
  host : σ

namespace Machine

variable {σ : Type}

/-- An evaluation that is about to begin. -/
def start (e : Expr) (scope : Scope) (host : σ) : Machine σ := ⟨.run e, [], scope, host⟩

/-- The machine with the outcome of a task at hand. -/
def giving (o : Outcome σ Value) (frames : List Frame) : Machine σ :=
  ⟨.give o.result, frames, o.scope, o.host⟩

end Machine

namespace Interpreter

variable {σ : Type} (interp : Interpreter σ)

/-- One turn of the machine. A result with no frame around it is the end. -/
def turn : Machine σ → Machine σ
  | ⟨.run (.lit v), frames, scope, host⟩ => ⟨.give (.ok v), frames, scope, host⟩
  | ⟨.run (.name n), frames, scope, host⟩ =>
    match scope.lookupName? n with
    | some v => ⟨.give (.ok v), frames, scope, host⟩
    | none => ⟨.give (.error (.unresolvedName n)), frames, scope, host⟩
  | ⟨.run (.ref i), frames, scope, host⟩ =>
    match scope.lookupIdent? i with
    | some v => ⟨.give (.ok v), frames, scope, host⟩
    | none => ⟨.give (.error (.unbound i)), frames, scope, host⟩
  | ⟨.run (.call f args), frames, scope, host⟩ => ⟨.call f [] args, frames, scope, host⟩
  | ⟨.run (.letIn bindings body), frames, scope, host⟩ =>
    ⟨.bind bindings body, .leave scope.depth :: frames, scope, host⟩
  | ⟨.run (.seq items), frames, scope, host⟩ => ⟨.go .nil items, frames, scope, host⟩
  | ⟨.run (.cond c t e), frames, scope, host⟩ => ⟨.run c, .branch t e :: frames, scope, host⟩
  | ⟨.call f done [], frames, scope, host⟩ => .giving (interp.apply f done scope host) frames
  | ⟨.call f done (e :: rest), frames, scope, host⟩ =>
    ⟨.run e, .argument f done rest :: frames, scope, host⟩
  | ⟨.bind [] body, frames, scope, host⟩ => ⟨.run body, frames, scope, host⟩
  | ⟨.bind ((b, e) :: rest) body, frames, scope, host⟩ =>
    ⟨.run e, .binding b rest body :: frames, scope, host⟩
  | ⟨.go last [], frames, scope, host⟩ => ⟨.give (.ok last), frames, scope, host⟩
  | ⟨.go _ (e :: rest), frames, scope, host⟩ => ⟨.run e, .item rest :: frames, scope, host⟩
  | ⟨.give (.ok v), .argument f done rest :: frames, scope, host⟩ =>
    ⟨.call f (done ++ [v]) rest, frames, scope, host⟩
  | ⟨.give (.ok v), .binding b rest body :: frames, scope, host⟩ =>
    ⟨.bind rest body, frames, scope.push b v, host⟩
  | ⟨.give (.ok v), .item rest :: frames, scope, host⟩ => ⟨.go v rest, frames, scope, host⟩
  | ⟨.give (.ok v), .branch t e :: frames, scope, host⟩ =>
    ⟨.run (if v.isTruthy then t else e), frames, scope, host⟩
  | ⟨.give result, .leave depth :: frames, scope, host⟩ =>
    ⟨.give result, frames, scope.truncate depth, host⟩
  | ⟨.give (.error failure), _ :: frames, scope, host⟩ =>
    ⟨.give (.error failure), frames, scope, host⟩
  | ⟨.give result, [], scope, host⟩ => ⟨.give result, [], scope, host⟩

/-! ## Coming to what evaluation says -/

/-- The machine gets from one state to another. -/
def Reaches (m m' : Machine σ) : Prop := ∃ turns, interp.turn^[turns] m = m'

variable {interp}

theorem Reaches.refl (m : Machine σ) : interp.Reaches m m := ⟨0, rfl⟩

theorem Reaches.trans {a b c : Machine σ} (h : interp.Reaches a b) (k : interp.Reaches b c) :
    interp.Reaches a c := by
  obtain ⟨n, rfl⟩ := h
  obtain ⟨m, rfl⟩ := k
  exact ⟨m + n, Function.iterate_add_apply _ m n a⟩

theorem reaches_turn (m : Machine σ) : interp.Reaches m (interp.turn m) := ⟨1, rfl⟩

/-- A frame that a failure passes by, and that goes on with a value in its own way, does what `andThen`
does. -/
theorem reaches_andThen {m : Machine σ} {o : Outcome σ Value} {frame : Frame} {frames : List Frame}
    (hm : interp.Reaches m (.giving o (frame :: frames)))
    (hfailure : ∀ failure scope host, interp.turn ⟨.give (.error failure), frame :: frames, scope, host⟩
      = ⟨.give (.error failure), frames, scope, host⟩)
    {next : Value → Scope → σ → Outcome σ Value}
    (hvalue : ∀ v scope host,
      interp.Reaches (interp.turn ⟨.give (.ok v), frame :: frames, scope, host⟩)
        (.giving (next v scope host) frames)) :
    interp.Reaches m (.giving (o.andThen next) frames) := by
  refine hm.trans ((reaches_turn _).trans ?_)
  obtain ⟨result, scope, host⟩ := o
  cases result with
  | ok v => exact hvalue v scope host
  | error failure =>
    show interp.Reaches (interp.turn ⟨.give (.error failure), frame :: frames, scope, host⟩) _
    rw [hfailure]
    exact Reaches.refl _

theorem reaches_evalArgs {es : List Expr}
    (h : ∀ e ∈ es, ∀ frames scope (host : σ), interp.Reaches ⟨.run e, frames, scope, host⟩
      (.giving (interp.eval e scope host) frames)) (f : String) (frames : List Frame) :
    ∀ (done : List Value) (scope : Scope) (host : σ),
      interp.Reaches ⟨.call f done es, frames, scope, host⟩
        (.giving ((interp.evalArgs es scope host).andThen fun vs scope host =>
          interp.apply f (done ++ vs) scope host) frames) := by
  induction es with
  | nil =>
    intro done scope host
    rw [evalArgs, Outcome.andThen_ok, List.append_nil]
    exact reaches_turn _
  | cons e es ih =>
    intro done scope host
    have hrest := ih fun e he => h e (List.mem_cons_of_mem _ he)
    have he := h e List.mem_cons_self (.argument f done es :: frames) scope host
    rw [evalArgs, Outcome.andThen_assoc]
    refine reaches_andThen ((reaches_turn _).trans he) (fun _ _ _ => rfl) fun v scope host => ?_
    rw [Outcome.andThen_assoc]
    have hgo := hrest (done ++ [v]) scope host
    simp only [List.append_assoc, List.singleton_append] at hgo
    exact hgo

theorem reaches_evalBindings {bs : List (Binder × Expr)} {body : Expr}
    (h : ∀ b ∈ bs, ∀ frames scope (host : σ), interp.Reaches ⟨.run b.2, frames, scope, host⟩
      (.giving (interp.eval b.2 scope host) frames))
    (hbody : ∀ frames scope (host : σ), interp.Reaches ⟨.run body, frames, scope, host⟩
      (.giving (interp.eval body scope host) frames)) (frames : List Frame) :
    ∀ (scope : Scope) (host : σ), interp.Reaches ⟨.bind bs body, frames, scope, host⟩
      (.giving ((interp.evalBindings bs scope host).andThen fun _ scope host =>
        interp.eval body scope host) frames) := by
  induction bs with
  | nil => intro scope host; exact (reaches_turn _).trans (hbody frames scope host)
  | cons b bs ih =>
    intro scope host
    obtain ⟨binder, e⟩ := b
    have hrest := ih fun b hb => h b (List.mem_cons_of_mem _ hb)
    have he := h (binder, e) List.mem_cons_self (.binding binder bs body :: frames) scope host
    rw [evalBindings, Outcome.andThen_assoc]
    refine reaches_andThen ((reaches_turn _).trans he) (fun _ _ _ => rfl) fun v scope host => ?_
    exact hrest (scope.push binder v) host

theorem reaches_evalSeq {es : List Expr}
    (h : ∀ e ∈ es, ∀ frames scope (host : σ), interp.Reaches ⟨.run e, frames, scope, host⟩
      (.giving (interp.eval e scope host) frames)) (frames : List Frame) :
    ∀ (last : Value) (scope : Scope) (host : σ),
      interp.Reaches ⟨.go last es, frames, scope, host⟩
        (.giving (interp.evalSeq es last scope host) frames) := by
  induction es with
  | nil => intro last scope host; exact reaches_turn _
  | cons e es ih =>
    intro last scope host
    have hrest := ih fun e he => h e (List.mem_cons_of_mem _ he)
    have he := h e List.mem_cons_self (.item es :: frames) scope host
    rw [evalSeq]
    refine reaches_andThen ((reaches_turn _).trans he) (fun _ _ _ => rfl) fun v scope host => ?_
    exact hrest v scope host

/-- The machine comes to what evaluation says, whatever frames wait for it. -/
theorem reaches_eval (e : Expr) : ∀ (frames : List Frame) (scope : Scope) (host : σ),
    interp.Reaches ⟨.run e, frames, scope, host⟩ (.giving (interp.eval e scope host) frames) := by
  induction e with
  | lit v => intro frames scope host; exact reaches_turn _
  | name n =>
    intro frames scope host
    have hread : interp.turn ⟨.run (.name n), frames, scope, host⟩
        = .giving (interp.eval (.name n) scope host) frames := by
      rw [turn, eval]
      cases scope.lookupName? n <;> rfl
    exact hread ▸ reaches_turn _
  | ref i =>
    intro frames scope host
    have hread : interp.turn ⟨.run (.ref i), frames, scope, host⟩
        = .giving (interp.eval (.ref i) scope host) frames := by
      rw [turn, eval]
      cases scope.lookupIdent? i <;> rfl
    exact hread ▸ reaches_turn _
  | call f args ih =>
    intro frames scope host
    rw [eval]
    exact (reaches_turn _).trans (reaches_evalArgs ih f frames [] scope host)
  | letIn bindings body ihb ih =>
    intro frames scope host
    -- the frame with the depth is passed with a value and with a failure alike
    have hinside := reaches_evalBindings ihb ih (.leave scope.depth :: frames) scope host
    rw [eval]
    refine (reaches_turn _).trans (hinside.trans ⟨1, ?_⟩)
    generalize (interp.evalBindings bindings scope host).andThen _ = o
    obtain ⟨result, inner, host⟩ := o
    cases result <;> rfl
  | seq items ih =>
    intro frames scope host
    exact (reaches_turn _).trans (reaches_evalSeq ih frames .nil scope host)
  | cond c t e ihc iht ihe =>
    intro frames scope host
    rw [eval]
    refine reaches_andThen ((reaches_turn _).trans (ihc (.branch t e :: frames) scope host))
      (fun _ _ _ => rfl) fun v scope host => ?_
    show interp.Reaches ⟨.run (if v.isTruthy then t else e), frames, scope, host⟩ _
    split
    · exact iht frames scope host
    · exact ihe frames scope host

end Interpreter

/-! ## The scope on the way -/

namespace Machine

variable {σ : Type} {interp : Interpreter σ}

/-- The machine has the bindings of `s` at the bottom of its scope, and leaving a `letIn` will not take
any of them off. -/
structure StandsOn (s : Scope) (m : Machine σ) : Prop where
  scope : m.scope.On s
  leaves : ∀ depth, Frame.leave depth ∈ m.frames → s.depth ≤ depth

theorem standsOn_start (e : Expr) (s : Scope) (host : σ) : (start e s host).StandsOn s :=
  ⟨Scope.On.refl s, fun _ h => nomatch h⟩

namespace StandsOn

variable {s : Scope} {scope : Scope} {frames : List Frame} {frame : Frame}

/-- What is to be done next and what the host is like make no difference. -/
theorem congr {task task' : Task} {host host' : σ} (h : StandsOn s ⟨task, frames, scope, host⟩) :
    StandsOn s ⟨task', frames, scope, host'⟩ :=
  ⟨h.scope, h.leaves⟩

theorem push_frame {task : Task} {host : σ} (h : StandsOn s ⟨task, frames, scope, host⟩)
    (hframe : ∀ depth, frame = .leave depth → s.depth ≤ depth) :
    StandsOn s ⟨task, frame :: frames, scope, host⟩ := by
  refine ⟨h.scope, fun depth hd => ?_⟩
  rcases List.mem_cons.mp hd with hd | hd
  · exact hframe depth hd.symm
  · exact h.leaves depth hd

theorem pop_frame {task : Task} {host : σ} (h : StandsOn s ⟨task, frame :: frames, scope, host⟩) :
    StandsOn s ⟨task, frames, scope, host⟩ :=
  ⟨h.scope, fun depth hd => h.leaves depth (List.mem_cons_of_mem _ hd)⟩

theorem push {task : Task} {host : σ} (h : StandsOn s ⟨task, frames, scope, host⟩) (b : Binder)
    (v : Value) : StandsOn s ⟨task, frames, scope.push b v, host⟩ :=
  ⟨(Scope.on_push scope b v).trans h.scope, h.leaves⟩

/-- A turn that leaves a `letIn` takes off no more than has been pushed. -/
theorem truncate {task : Task} {host : σ} {depth : Nat}
    (h : StandsOn s ⟨task, .leave depth :: frames, scope, host⟩) :
    StandsOn s ⟨task, frames, scope.truncate depth, host⟩ :=
  ⟨h.scope.truncate_of_le (h.leaves depth List.mem_cons_self), h.pop_frame.leaves⟩

theorem turn_run {e : Expr} {host : σ} (h : StandsOn s ⟨.run e, frames, scope, host⟩) :
    (interp.turn ⟨.run e, frames, scope, host⟩).StandsOn s := by
  cases e with
  | lit v => exact h.congr
  | name n =>
    rw [Interpreter.turn]
    split <;> exact h.congr
  | ref i =>
    rw [Interpreter.turn]
    split <;> exact h.congr
  | call f args => exact h.congr
  | letIn bindings body =>
    -- the depth noted now is not below the start, since the start is at the bottom now
    refine h.congr.push_frame fun depth hd => ?_
    obtain rfl := Frame.leave.inj hd
    exact h.scope.depth_le
  | seq items => exact h.congr
  | cond c t e => exact h.congr.push_frame nofun

theorem turn_give {result : Except Failure Value} {host : σ}
    (h : StandsOn s ⟨.give result, frames, scope, host⟩) :
    (interp.turn ⟨.give result, frames, scope, host⟩).StandsOn s := by
  cases frames with
  | nil => cases result <;> exact h
  | cons frame frames =>
    cases result with
    | ok v =>
      cases frame with
      | argument f done rest => exact h.pop_frame.congr
      | binding b rest body => exact (h.pop_frame.push b v).congr
      | item rest => exact h.pop_frame.congr
      | branch t e => exact h.pop_frame.congr
      | leave depth => exact h.truncate
    | error failure =>
      cases frame with
      | leave depth => exact h.truncate
      | _ => exact h.pop_frame

/-- **One turn** keeps the bindings at the bottom where they are. -/
theorem turn {m : Machine σ} (h : m.StandsOn s) : (interp.turn m).StandsOn s := by
  obtain ⟨task, frames, scope, host⟩ := m
  cases task with
  | run e => exact h.turn_run
  | call f done rest =>
    cases rest with
    | nil =>
      refine ⟨?_, h.leaves⟩
      show (interp.apply f done scope host).scope.On s
      rw [Interpreter.apply_scope]
      exact h.scope
    | cons e rest => exact h.congr.push_frame nofun
  | bind rest body =>
    cases rest with
    | nil => exact h.congr
    | cons b rest => exact h.congr.push_frame nofun
  | go last rest =>
    cases rest with
    | nil => exact h.congr
    | cons e rest => exact h.congr.push_frame nofun
  | give result => exact h.turn_give

theorem iterate {m : Machine σ} (h : m.StandsOn s) (turns : Nat) :
    (interp.turn^[turns] m).StandsOn s := by
  induction turns with
  | zero => exact h
  | succ turns ih =>
    rw [Function.iterate_succ_apply']
    exact ih.turn

end StandsOn

end Machine

namespace Interpreter

variable {σ : Type}

/-- **Evaluation restores the scope exactly.** Whatever the expression, the scope and the host functions,
and whether a value or a failure comes of it, the scope is left as it was found. The machine that evaluates
turn by turn ends with that outcome, and at each of its turns the bindings there were at the start are still
in the scope, in their order and below all others, so it is never shorter than at the start. -/
theorem eval_restores_scope (interp : Interpreter σ) (e : Expr) (scope : Scope) (host : σ) :
    (interp.eval e scope host).scope = scope ∧
      (∃ last, ∀ turns ≥ last, interp.turn^[turns] (.start e scope host)
        = .giving (interp.eval e scope host) []) ∧
      ∀ turns, let now := (interp.turn^[turns] (.start e scope host)).scope
        scope.bindings <:+ now.bindings ∧ scope.depth ≤ now.depth := by
  refine ⟨interp.eval_scope e scope host, ?_, fun turns => ?_⟩
  · obtain ⟨last, hlast⟩ : interp.Reaches ⟨.run e, [], scope, host⟩
        (.giving (interp.eval e scope host) []) := reaches_eval e [] scope host
    have hend : interp.turn (.giving (interp.eval e scope host) [])
        = .giving (interp.eval e scope host) [] := by
      unfold Machine.giving
      cases (interp.eval e scope host).result <;> rfl
    refine ⟨last, fun turns hturns => ?_⟩
    obtain ⟨more, rfl⟩ := Nat.exists_eq_add_of_le' hturns
    rw [Function.iterate_add_apply]
    show interp.turn^[more] (interp.turn^[last] ⟨.run e, [], scope, host⟩) = _
    rw [hlast]
    exact Function.iterate_fixed hend more
  · have hstands : (interp.turn^[turns] (.start e scope host)).StandsOn scope :=
      (Machine.standsOn_start e scope host).iterate turns
    exact ⟨hstands.scope, hstands.scope.depth_le⟩

/-- A body fails with a binding in force, and the next turn takes the binding off. -/
example :
    let e : Expr := .letIn [(.name "x", .lit .nil)] (.name "y")
    let after (turns : Nat) : Machine Unit := (turn {})^[turns] (.start e {} ())
    (after 6).task = .give (.error (.unresolvedName "y")) ∧
      (after 6).scope.depth = 1 ∧ (after 7).scope.depth = 0 :=
  ⟨rfl, rfl, rfl⟩

end Interpreter

end Hygiene
