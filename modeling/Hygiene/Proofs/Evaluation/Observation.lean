import Hygiene.Proofs.Evaluation.Hosts
import Hygiene.Proofs.Evaluation.Restoring

/-!
# What a run shows

Two runs are said to agree when they show the same: the same value or failure, the same host calls
with the same arguments in the same order, and the same host state afterwards. An `Observation` is
these three. `Interpreter.observe` takes the result and the host state from a run of `eval`, and the
calls from the same run under functions that note each call they make (`Interpreter.recording`);
noting changes nothing else (`observe_eq_observed`).

Since the scope always comes back, an observation has no scope in it, and what an expression shows
is composed of what its parts show, one equation for each kind of expression (`observe_call`,
`observe_letIn_cons`, `observe_seq`, `observe_cond`). Everything said about the meaning of
expressions goes through these equations.
-/

namespace Hygiene

/-- A call of a host function: the name it was made by and the arguments. -/
structure HostCall where
  function : String
  args : List Value

/-- What can be seen of a run from outside. -/
structure Observation (σ α : Type) where
  result : Except Failure α
  /-- The host calls, in the order made. -/
  calls : List HostCall
  /-- The host state at the end. -/
  host : σ

namespace Observation

variable {σ α β γ : Type}

/-- A value, without a call. -/
def done (a : α) (host : σ) : Observation σ α := ⟨.ok a, [], host⟩

/-- A failure, without a call. -/
def failed (failure : Failure) (host : σ) : Observation σ α := ⟨.error failure, [], host⟩

/-- Go on with the value if there is one, behind the calls made so far; after a failure nothing more
is run. -/
def andThen (o : Observation σ α) (next : α → σ → Observation σ β) : Observation σ β :=
  match o.result with
  | .ok a => ⟨(next a o.host).result, o.calls ++ (next a o.host).calls, (next a o.host).host⟩
  | .error failure => ⟨.error failure, o.calls, o.host⟩

@[simp] theorem done_andThen (a : α) (host : σ) (next : α → σ → Observation σ β) :
    (done a host).andThen next = next a host := rfl

@[simp] theorem failed_andThen (failure : Failure) (host : σ) (next : α → σ → Observation σ β) :
    (failed failure host).andThen next = failed failure host := rfl

/-- What comes after a run matters only for the value that the run ends with. -/
theorem andThen_congr_of_ok (o : Observation σ α) {next next' : α → σ → Observation σ β}
    (h : ∀ a, o.result = .ok a → ∀ host, next a host = next' a host) :
    o.andThen next = o.andThen next' := by
  unfold andThen
  cases hresult : o.result with
  | error failure => rfl
  | ok a => simp only [h a hresult]

theorem andThen_congr (o : Observation σ α) {next next' : α → σ → Observation σ β}
    (h : ∀ a host, next a host = next' a host) : o.andThen next = o.andThen next' :=
  o.andThen_congr_of_ok fun a _ => h a

/-- Two runs in a row end with a value only if both do. -/
theorem result_andThen_eq_ok {o : Observation σ α} {next : α → σ → Observation σ β} {b : β}
    (h : (o.andThen next).result = .ok b) :
    ∃ a, o.result = .ok a ∧ (next a o.host).result = .ok b := by
  unfold andThen at h
  cases hresult : o.result with
  | error failure => rw [hresult] at h; cases h
  | ok a => rw [hresult] at h; exact ⟨a, rfl, h⟩

theorem andThen_assoc (o : Observation σ α) (next : α → σ → Observation σ β)
    (last : β → σ → Observation σ γ) :
    (o.andThen next).andThen last = o.andThen fun a host => (next a host).andThen last := by
  obtain ⟨result, calls, host⟩ := o
  cases result with
  | error failure => rfl
  | ok a =>
    simp only [andThen]
    cases (next a host).result with
    | error failure => rfl
    | ok b => simp only [List.append_assoc]

end Observation

/-- A host function that notes each call behind the earlier ones and then makes it. -/
def HostFunction.recorded {σ : Type} (name : String) (f : HostFunction σ) :
    HostFunction (σ × List HostCall) :=
  fun args host => ((f args host.1).1, (f args host.1).2, host.2 ++ [⟨name, args⟩])

/-- A noted history moved behind earlier calls. -/
def HostCall.behind {σ : Type} (earlier : List HostCall) (host : σ × List HostCall) :
    σ × List HostCall := (host.1, earlier ++ host.2)

/-- What an outcome shows once calls have been noted. -/
def Outcome.observed {σ α : Type} (o : Outcome (σ × List HostCall) α) : Observation σ α :=
  ⟨o.result, o.host.2, o.host.1⟩

/-- Observing two runs one after the other: the second one starts with nothing noted, and its calls
stand behind those of the first. -/
theorem Outcome.observed_andThen {σ α β : Type} {o : Outcome (σ × List HostCall) α} {scope : Scope}
    {next : α → Scope → σ × List HostCall → Outcome (σ × List HostCall) β}
    (ho : o.scope = scope)
    (hnext : ∀ earlier a host, next a scope (HostCall.behind earlier host)
      = (next a scope host).mapHost (HostCall.behind earlier)) :
    (o.andThen next).observed
      = o.observed.andThen fun a host => (next a scope (host, [])).observed := by
  obtain ⟨result, oscope, host, calls⟩ := o
  cases result with
  | error failure => rfl
  | ok a =>
    have hcalls : (host, calls) = HostCall.behind calls (host, []) := by
      rw [HostCall.behind, List.append_nil]
    rw [andThen_ok, show oscope = scope from ho, hcalls, hnext calls a (host, [])]
    simp only [observed, Observation.andThen, mapHost, HostCall.behind, List.append_nil]

namespace Interpreter

variable {σ : Type} (interp : Interpreter σ)

/-- The same functions, each noting its calls. -/
def recording : Interpreter (σ × List HostCall) :=
  ⟨⟨interp.functions.entries.map fun entry => (entry.1, HostFunction.recorded entry.1 entry.2)⟩⟩

theorem recording_get? (name : String) :
    interp.recording.functions.get? name
      = (interp.functions.get? name).map (HostFunction.recorded name) := by
  unfold recording OrderedMap.get?
  induction interp.functions.entries with
  | nil => rfl
  | cons entry rest ih =>
    rw [List.map_cons, List.lookup_cons, List.lookup_cons]
    cases hname : name == entry.1 with
    | true => rw [eq_of_beq hname]; rfl
    | false => exact ih

/-- Recording leaves out nothing and adds nothing but the notes. -/
theorem recording_carries_fst : Carries Prod.fst interp.recording interp := by
  intro function args scope host
  unfold apply
  rw [recording_get?]
  cases interp.functions.get? function <;> rfl

/-- What has been noted before does not change what is noted from here on. -/
theorem recording_carries_behind (earlier : List HostCall) :
    Carries (HostCall.behind earlier) interp.recording interp.recording := by
  intro function args scope host
  unfold apply
  rw [recording_get?]
  cases interp.functions.get? function with
  | none => rfl
  | some f =>
    simp only [Option.map_some, HostFunction.recorded, HostCall.behind, Outcome.mapHost,
      List.append_assoc]

/-- What a run of an expression shows: its result and the host state it leaves, and the calls that
the same run notes when it starts with nothing noted. -/
def observe (e : Expr) (scope : Scope) (host : σ) : Observation σ Value :=
  ⟨(interp.eval e scope host).result, (interp.recording.eval e scope (host, [])).host.2,
    (interp.eval e scope host).host⟩

/-- What a call shows. A function that is not registered is never called. -/
def observeCall (function : String) (args : List Value) (host : σ) : Observation σ Value :=
  match interp.functions.get? function with
  | none => .failed (.unknownFunction function) host
  | some f => ⟨(f args host).1, [⟨function, args⟩], (f args host).2⟩

/-- What it shows to run expressions in order, each in one and the same scope, until one fails. -/
def observeEach : List Expr → Scope → σ → Observation σ (List Value)
  | [], _, host => .done [] host
  | e :: es, scope, host =>
    (interp.observe e scope host).andThen fun v host =>
      (observeEach es scope host).andThen fun vs host => .done (v :: vs) host

/-- Noting calls changes neither the result nor the host state, so all three can be taken of the run
that notes. -/
theorem observe_eq_observed (e : Expr) (scope : Scope) (host : σ) :
    interp.observe e scope host = (interp.recording.eval e scope (host, [])).observed := by
  have h : interp.eval e scope host
      = (interp.recording.eval e scope (host, [])).mapHost Prod.fst :=
    eval_mapHost interp.recording_carries_fst e scope (host, [])
  rw [observe, h]
  rfl

/-- Expressions that show the same one by one show the same in a row. -/
theorem observeEach_map_congr {es : List Expr} {f : Expr → Expr} {t s : Scope}
    (h : ∀ e ∈ es, ∀ host, interp.observe (f e) t host = interp.observe e s host) :
    ∀ host : σ, interp.observeEach (es.map f) t host = interp.observeEach es s host := by
  induction es with
  | nil => intro host; rfl
  | cons e es ih =>
    intro host
    rw [List.map_cons, observeEach, observeEach, h e List.mem_cons_self]
    refine Observation.andThen_congr _ fun v host => ?_
    rw [ih fun e he => h e (List.mem_cons_of_mem _ he)]

/-! ## One equation for each kind of expression -/

@[simp] theorem observe_lit (v : Value) (scope : Scope) (host : σ) :
    interp.observe (.lit v) scope host = .done v host := rfl

theorem observe_name (n : String) (scope : Scope) (host : σ) :
    interp.observe (.name n) scope host
      = match scope.lookupName? n with
        | some v => .done v host
        | none => .failed (.unresolvedName n) host := by
  rw [observe_eq_observed, eval]
  cases scope.lookupName? n <;> rfl

theorem observe_ref (i : Ident) (scope : Scope) (host : σ) :
    interp.observe (.ref i) scope host
      = match scope.lookupIdent? i with
        | some v => .done v host
        | none => .failed (.unbound i) host := by
  rw [observe_eq_observed, eval]
  cases scope.lookupIdent? i <;> rfl

theorem observed_apply (function : String) (args : List Value) (scope : Scope) (host : σ) :
    (interp.recording.apply function args scope (host, [])).observed
      = interp.observeCall function args host := by
  unfold apply observeCall
  rw [recording_get?]
  cases interp.functions.get? function <;> rfl

/-! ### Runs behind earlier calls

What a run notes does not depend on what has been noted before it. This is the premise under which
`Outcome.observed_andThen` takes two runs apart. -/

theorem eval_behind (earlier : List HostCall) (e : Expr) (scope : Scope)
    (host : σ × List HostCall) :
    interp.recording.eval e scope (HostCall.behind earlier host)
      = (interp.recording.eval e scope host).mapHost (HostCall.behind earlier) :=
  eval_mapHost (interp.recording_carries_behind earlier) e scope host

theorem evalArgs_behind (earlier : List HostCall) (es : List Expr) (scope : Scope)
    (host : σ × List HostCall) :
    interp.recording.evalArgs es scope (HostCall.behind earlier host)
      = (interp.recording.evalArgs es scope host).mapHost (HostCall.behind earlier) :=
  evalArgs_mapHost (fun e _ => interp.eval_behind earlier e) scope host

theorem evalSeq_behind (earlier : List HostCall) (es : List Expr) (last : Value) (scope : Scope)
    (host : σ × List HostCall) :
    interp.recording.evalSeq es last scope (HostCall.behind earlier host)
      = (interp.recording.evalSeq es last scope host).mapHost (HostCall.behind earlier) :=
  evalSeq_mapHost (fun e _ => interp.eval_behind earlier e) last scope host

theorem evalBindings_behind (earlier : List HostCall) (bs : List (Binder × Expr)) (scope : Scope)
    (host : σ × List HostCall) :
    interp.recording.evalBindings bs scope (HostCall.behind earlier host)
      = (interp.recording.evalBindings bs scope host).mapHost (HostCall.behind earlier) :=
  evalBindings_mapHost (fun b _ => interp.eval_behind earlier b.2) scope host

theorem observed_evalArgs (es : List Expr) (scope : Scope) :
    ∀ host : σ, (interp.recording.evalArgs es scope (host, [])).observed
      = interp.observeEach es scope host := by
  induction es with
  | nil => intro host; rfl
  | cons e es ih =>
    intro host
    rw [evalArgs, observeEach, Outcome.observed_andThen (interp.recording.eval_scope e scope _),
      ← observe_eq_observed]
    · refine Observation.andThen_congr _ fun v host => ?_
      rw [Outcome.observed_andThen (evalArgs_scope _ (fun e _ => eval_scope _ e) scope _), ih host]
      · rfl
      · intro earlier vs host
        rfl
    · intro earlier v host
      rw [evalArgs_behind]
      exact Outcome.mapHost_andThen _ _ fun vs scope host => rfl

/-- Running expressions one after another for the last one's value: the same runs, with the other
values dropped. -/
theorem observed_evalSeq (es : List Expr) (scope : Scope) :
    ∀ (last : Value) (host : σ), (interp.recording.evalSeq es last scope (host, [])).observed
      = (interp.observeEach es scope host).andThen fun vs host => .done (vs.getLastD last) host := by
  induction es with
  | nil => intro last host; rfl
  | cons e es ih =>
    intro last host
    rw [evalSeq, observeEach, Observation.andThen_assoc,
      Outcome.observed_andThen (interp.recording.eval_scope e scope _), ← observe_eq_observed]
    · refine Observation.andThen_congr _ fun v host => ?_
      rw [ih v host, Observation.andThen_assoc]
      refine Observation.andThen_congr _ fun vs host => ?_
      rw [Observation.done_andThen, List.getLastD_cons]
    · intro earlier v host
      exact interp.evalSeq_behind earlier es v scope host

theorem observe_call (f : String) (args : List Expr) (scope : Scope) (host : σ) :
    interp.observe (.call f args) scope host
      = (interp.observeEach args scope host).andThen (interp.observeCall f) := by
  rw [observe_eq_observed, eval,
    Outcome.observed_andThen (evalArgs_scope _ (fun e _ => eval_scope _ e) scope _), observed_evalArgs]
  · exact Observation.andThen_congr _ fun vs host => interp.observed_apply f vs scope host
  · intro earlier vs host
    exact interp.recording_carries_behind earlier f vs scope host

theorem observe_seq (items : List Expr) (scope : Scope) (host : σ) :
    interp.observe (.seq items) scope host
      = (interp.observeEach items scope host).andThen fun vs host =>
        .done (vs.getLastD .nil) host := by
  rw [observe_eq_observed, eval, observed_evalSeq]

theorem observe_cond (c t e : Expr) (scope : Scope) (host : σ) :
    interp.observe (.cond c t e) scope host
      = (interp.observe c scope host).andThen fun v host =>
        if v.isTruthy then interp.observe t scope host else interp.observe e scope host := by
  rw [observe_eq_observed, eval,
    Outcome.observed_andThen (interp.recording.eval_scope c scope _), ← observe_eq_observed]
  · refine Observation.andThen_congr _ fun v host => ?_
    rw [observe_eq_observed, observe_eq_observed]
    cases v.isTruthy <;> rfl
  · intro earlier v host
    cases v.isTruthy
    · exact interp.eval_behind earlier e scope host
    · exact interp.eval_behind earlier t scope host

@[simp] theorem observe_letIn_nil (body : Expr) (scope : Scope) (host : σ) :
    interp.observe (.letIn [] body) scope host = interp.observe body scope host := by
  rw [observe_eq_observed, observe_eq_observed, eval]
  rfl

/-- A `letIn` runs its first value, pushes it, and goes on as the `letIn` of the other bindings. -/
theorem observe_letIn_cons (b : Binder) (e : Expr) (rest : List (Binder × Expr)) (body : Expr)
    (scope : Scope) (host : σ) :
    interp.observe (.letIn ((b, e) :: rest) body) scope host
      = (interp.observe e scope host).andThen fun v host =>
        interp.observe (.letIn rest body) (scope.push b v) host := by
  rw [observe_eq_observed, eval]
  -- an observation has no scope, so where the scope is taken back to does not show
  change (Outcome.andThen _ _).observed = _
  rw [evalBindings, Outcome.andThen_assoc,
    Outcome.observed_andThen (interp.recording.eval_scope e scope _), ← observe_eq_observed]
  · refine Observation.andThen_congr _ fun v host => ?_
    rw [observe_eq_observed, eval]
    rfl
  · intro earlier v host
    rw [evalBindings_behind]
    exact Outcome.mapHost_andThen _ _ fun _ inner host => interp.eval_behind earlier body inner host

end Interpreter

end Hygiene
