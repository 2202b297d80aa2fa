import Hygiene.Proofs.Evaluation.Dialogue
import Hygiene.Proofs.OrderedMap

/-!
# A refused call ends the evaluation

Suppose that a host does what another host does, up to some call of a run, and refuses that one
(`RefusesAfter`). Then the run stops there: it has made the calls up to the refused one, makes no other
and ends with just that refusal, however deep the call stands and whatever is around it. If the run ends
before it comes to that call, nothing has changed.

> `Interpreter.eval_refused`: this, for every expression and every two such hosts.

In a dialogue there is nothing behind a call that fails, so this is an induction on the dialogue
(`Dialogue.play_refused`). `Interpreter.refusing` makes a host that refuses one call out of a host that
need not refuse any, by counting.
-/

namespace Hygiene

variable {σ τ α : Type}

namespace Interpreter

/-- Along some calls, the host `A` does what the host `B` does on the first `n` of them and refuses the
next one. To do the same is to answer the same and to keep in the host states what `R` says they have in
common. -/
def RefusesAfter (R : τ → σ → Prop) (A : Interpreter τ) (B : Interpreter σ) (failure : Failure) :
    List HostCall → (n : Nat) → τ → σ → Prop
  | [], _, _, _ => True
  | c :: _, 0, t, _ => (A.answer c t).result = .error failure
  | c :: cs, n + 1, t, s =>
    (A.answer c t).result = (B.answer c s).result ∧ R (A.answer c t).host (B.answer c s).host
      ∧ RefusesAfter R A B failure cs n (A.answer c t).host (B.answer c s).host

variable {interp : Interpreter σ} {c : HostCall}

theorem answer_of_not_hasFunction (h : interp.hasFunction c.function = false) (host : σ) :
    interp.answer c host = .failed (.unknownFunction c.function) host := by
  have hnone : interp.functions.get? c.function = none := by
    rw [← Option.isNone_iff_eq_none, ← Option.not_isSome, OrderedMap.isSome_get?,
      show interp.functions.contains c.function = false from h]
    rfl
  unfold answer observeCall
  rw [hnone]

theorem calls_answer (h : interp.hasFunction c.function = true) (host : σ) :
    (interp.answer c host).calls = [c] := by
  have hsome : (interp.functions.get? c.function).isSome = true := by
    rw [OrderedMap.isSome_get?]
    exact h
  obtain ⟨f, hf⟩ := Option.isSome_iff_exists.mp hsome
  unfold answer observeCall
  rw [hf]

end Interpreter

namespace Dialogue

variable {interp : Interpreter σ} {c : HostCall} {next : Value → Dialogue α} {host : σ}

/-! ## What asking for a call shows -/

theorem play_ask_of_not_hasFunction (h : interp.hasFunction c.function = false) :
    (ask c next).play interp host = .failed (.unknownFunction c.function) host := by
  rw [play, Interpreter.answer_of_not_hasFunction h, Observation.failed_andThen]

theorem play_ask_of_error (h : interp.hasFunction c.function = true) {failure : Failure}
    (hanswer : (interp.answer c host).result = .error failure) :
    (ask c next).play interp host = ⟨.error failure, [c], (interp.answer c host).host⟩ := by
  rw [play, Observation.andThen, hanswer]
  simp only [Interpreter.calls_answer h]

theorem play_ask_of_ok (h : interp.hasFunction c.function = true) {v : Value}
    (hanswer : (interp.answer c host).result = .ok v) :
    (ask c next).play interp host
      = { (next v).play interp (interp.answer c host).host with
          calls := c :: ((next v).play interp (interp.answer c host).host).calls } := by
  rw [play, Observation.andThen, hanswer]
  simp only [Interpreter.calls_answer h, List.singleton_append]

/-- Only functions that are registered are called. -/
theorem hasFunction_of_mem_calls (interp : Interpreter σ) (d : Dialogue α) :
    ∀ host : σ, ∀ c ∈ (d.play interp host).calls, interp.hasFunction c.function = true := by
  induction d with
  | done result =>
    intro host c hc
    cases hc
  | ask call next ih =>
    intro host c hc
    cases hregistered : interp.hasFunction call.function with
    | false =>
      rw [play_ask_of_not_hasFunction hregistered] at hc
      cases hc
    | true =>
      cases hanswer : (interp.answer call host).result with
      | error failure =>
        rw [play_ask_of_error hregistered hanswer] at hc
        rw [List.mem_singleton.mp hc]
        exact hregistered
      | ok v =>
        rw [play_ask_of_ok hregistered hanswer] at hc
        rcases List.mem_cons.mp hc with rfl | hc
        · exact hregistered
        · exact ih v _ c hc

/-! ## Refusing a call -/

/-- **A refused call ends a dialogue.** -/
theorem play_refused {R : τ → σ → Prop} {A : Interpreter τ} {B : Interpreter σ} {failure : Failure}
    (hnames : ∀ f, A.hasFunction f = B.hasFunction f) (d : Dialogue α) :
    ∀ (n : Nat) (t : τ) (s : σ), R t s →
      Interpreter.RefusesAfter R A B failure (d.play B s).calls n t s →
      (n < (d.play B s).calls.length →
          (d.play A t).calls = (d.play B s).calls.take (n + 1)
            ∧ (d.play A t).result = .error failure)
        ∧ ((d.play B s).calls.length ≤ n →
          (d.play A t).calls = (d.play B s).calls ∧ (d.play A t).result = (d.play B s).result
            ∧ R (d.play A t).host (d.play B s).host) := by
  induction d with
  | done result =>
    intro n t s hR _
    exact ⟨fun hlt => absurd hlt (Nat.not_lt_zero n), fun _ => ⟨rfl, rfl, hR⟩⟩
  | ask c next ih =>
    intro n t s hR hrefuses
    cases hB : B.hasFunction c.function with
    | false =>
      -- the call is made with neither host
      rw [play_ask_of_not_hasFunction hB, play_ask_of_not_hasFunction ((hnames _).trans hB)]
      exact ⟨fun hlt => absurd hlt (Nat.not_lt_zero n), fun _ => ⟨rfl, rfl, hR⟩⟩
    | true =>
      have hA : A.hasFunction c.function = true := (hnames _).trans hB
      -- in both cases the call is the refused one, or one of those in front of it
      cases hanswer : (B.answer c s).result with
      | error other =>
        rw [play_ask_of_error hB hanswer] at hrefuses ⊢
        cases n with
        | zero =>
          rw [play_ask_of_error hA hrefuses]
          exact ⟨fun _ => ⟨rfl, rfl⟩, fun hle => absurd hle (Nat.not_succ_le_zero _)⟩
        | succ n =>
          obtain ⟨hsame, hhosts, -⟩ := hrefuses
          rw [play_ask_of_error hA (hsame.trans hanswer)]
          exact ⟨fun hlt => absurd (Nat.lt_of_succ_lt_succ hlt) (Nat.not_lt_zero n),
            fun _ => ⟨rfl, rfl, hhosts⟩⟩
      | ok v =>
        rw [play_ask_of_ok hB hanswer] at hrefuses ⊢
        cases n with
        | zero =>
          rw [play_ask_of_error hA hrefuses]
          exact ⟨fun _ => ⟨rfl, rfl⟩, fun hle => absurd hle (Nat.not_succ_le_zero _)⟩
        | succ n =>
          obtain ⟨hsame, hhosts, hbehind⟩ := hrefuses
          rw [play_ask_of_ok hA (hsame.trans hanswer)]
          obtain ⟨hcut, hwhole⟩ := ih v n _ _ hhosts hbehind
          constructor
          · intro hlt
            obtain ⟨hcalls, hresult⟩ := hcut (Nat.lt_of_succ_lt_succ hlt)
            exact ⟨congrArg (List.cons c) hcalls, hresult⟩
          · intro hle
            obtain ⟨hcalls, hresult, hhost⟩ := hwhole (Nat.le_of_succ_le_succ hle)
            exact ⟨congrArg (List.cons c) hcalls, hresult, hhost⟩

end Dialogue

/-! ## A host that refuses one call -/

/-- A host function that refuses the call before which `n` calls have been counted, and counts. -/
def HostFunction.refusing (n : Nat) (failure : Failure) (f : HostFunction σ) :
    HostFunction (σ × Nat) :=
  fun args host =>
    if host.2 = n then (.error failure, host.1, host.2 + 1)
    else ((f args host.1).1, (f args host.1).2, host.2 + 1)

namespace Interpreter

variable (interp : Interpreter σ) (n : Nat) (failure : Failure)

/-- The same functions, sharing one count of calls, of which they refuse the one behind the first
`n`. -/
def refusing : Interpreter (σ × Nat) :=
  ⟨interp.functions.mapValues (HostFunction.refusing n failure)⟩

theorem hasFunction_refusing (f : String) :
    (interp.refusing n failure).hasFunction f = interp.hasFunction f := by
  unfold hasFunction refusing
  rw [← OrderedMap.isSome_get?, ← OrderedMap.isSome_get?, OrderedMap.get?_mapValues,
    Option.isSome_map]

theorem answer_refusing (c : HostCall) (host : σ) (count : Nat) :
    (interp.refusing n failure).answer c (host, count)
      = if interp.hasFunction c.function = true then
          if count = n then ⟨.error failure, [c], (host, count + 1)⟩
          else ⟨(interp.answer c host).result, [c], ((interp.answer c host).host, count + 1)⟩
        else .failed (.unknownFunction c.function) (host, count) := by
  unfold answer observeCall hasFunction refusing
  rw [← OrderedMap.isSome_get?, OrderedMap.get?_mapValues]
  cases interp.functions.get? c.function with
  | none => rfl
  | some f =>
    simp only [Option.map_some, Option.isSome_some, if_true, HostFunction.refusing]
    split <;> rfl

/-- Counting finds the call that is to be refused. -/
theorem refusesAfter_refusing {calls : List HostCall}
    (hregistered : ∀ c ∈ calls, interp.hasFunction c.function = true) :
    ∀ (left count : Nat) (host : σ), count + left = n →
      RefusesAfter (fun t s => t.1 = s) (interp.refusing n failure) interp failure calls left
        (host, count) host := by
  induction calls with
  | nil => intro left count host _; exact trivial
  | cons c cs ih =>
    intro left count host hcount
    have hc := hregistered c List.mem_cons_self
    cases left with
    | zero =>
      rw [RefusesAfter, answer_refusing, if_pos hc, if_pos (by omega)]
    | succ left =>
      have hanswer := interp.answer_refusing n failure c host count
      rw [if_pos hc, if_neg (by omega)] at hanswer
      rw [RefusesAfter, hanswer]
      exact ⟨rfl, rfl, ih (fun c hc => hregistered c (List.mem_cons_of_mem _ hc)) left (count + 1) _
        (by omega)⟩

/-- **Refusing one call.** Under a host that refuses the call behind the first `n`, every run makes the
calls that it makes without the refusal, up to the refused one, and fails with the refusal if it comes
to it. -/
theorem observe_refusing (e : Expr) (scope : Scope) (host : σ) :
    ((interp.refusing n failure).observe e scope (host, 0)).calls
        = (interp.observe e scope host).calls.take (n + 1)
      ∧ ((interp.refusing n failure).observe e scope (host, 0)).result
        = if n < (interp.observe e scope host).calls.length then .error failure
          else (interp.observe e scope host).result := by
  rw [observe_eq_play, observe_eq_play]
  have hregistered := (e.dialogue scope).hasFunction_of_mem_calls interp host
  obtain ⟨hcut, hwhole⟩ := (e.dialogue scope).play_refused (interp.hasFunction_refusing n failure)
    n (host, 0) host rfl (interp.refusesAfter_refusing n failure hregistered n 0 host (by omega))
  by_cases hlt : n < ((e.dialogue scope).play interp host).calls.length
  · rw [if_pos hlt]
    exact hcut hlt
  · obtain ⟨hcalls, hresult, -⟩ := hwhole (by omega)
    rw [if_neg hlt, hresult, List.take_of_length_le (by omega)]
    exact ⟨hcalls, rfl⟩

/-- **Failures stop an evaluation at once and are never swallowed.** When `A` does what `B` does on the
first `n` host calls that the evaluation makes with `B` and refuses the next one, the evaluation makes
just these calls with `A` and ends with the refusal, and if it makes no more than `n` calls it is the
same evaluation with both. The scope is in any case what it was. -/
theorem eval_refused {R : τ → σ → Prop} {A : Interpreter τ} {B : Interpreter σ} {failure : Failure}
    {n : Nat} {e : Expr} {scope : Scope} {t : τ} {s : σ}
    (hnames : ∀ f, A.hasFunction f = B.hasFunction f) (hstart : R t s)
    (hrefuses : RefusesAfter R A B failure (B.observe e scope s).calls n t s) :
    (n < (B.observe e scope s).calls.length →
        (A.observe e scope t).calls = (B.observe e scope s).calls.take (n + 1)
          ∧ (A.eval e scope t).result = .error failure)
      ∧ ((B.observe e scope s).calls.length ≤ n →
        (A.observe e scope t).calls = (B.observe e scope s).calls
          ∧ (A.eval e scope t).result = (B.eval e scope s).result
          ∧ R (A.eval e scope t).host (B.eval e scope s).host)
      ∧ (A.eval e scope t).scope = scope ∧ (B.eval e scope s).scope = scope := by
  have hA : A.observe e scope t = (e.dialogue scope).play A t := A.observe_eq_play e scope t
  have hB : B.observe e scope s = (e.dialogue scope).play B s := B.observe_eq_play e scope s
  rw [hB] at hrefuses
  obtain ⟨hcut, hwhole⟩ := (e.dialogue scope).play_refused hnames n t s hstart hrefuses
  rw [← hA, ← hB] at hcut hwhole
  exact ⟨hcut, hwhole, A.eval_scope e scope t, B.eval_scope e scope s⟩

/-- The third of five calls is refused, in an argument inside a branch inside a `letIn`. -/
theorem eval_refused_in_branch :
    let note : HostFunction (List Value) := fun args host => (.ok (args.headD .nil), host ++ args)
    let interp := Interpreter.register {} "note" note
    let failure : Failure := .host "note" "full"
    let noted (k : Int64) : Expr := .call "note" [.lit (.int k)]
    let e : Expr := .letIn [(.name "a", noted 1)]
      (.cond (.call "note" [.name "a"]) (.seq [.call "note" [noted 3], noted 4]) (.name "a"))
    let scope : Scope := ⟨[(.name "b", .nil)]⟩
    let refusing := interp.refusing 2 failure
    (∀ f, refusing.hasFunction f = interp.hasFunction f)
      ∧ RefusesAfter (fun t s => t.1 = s) refusing interp failure (interp.observe e scope []).calls 2
        ([], 0) []
      ∧ (interp.observe e scope []).calls
        = [⟨"note", [.int 1]⟩, ⟨"note", [.int 1]⟩, ⟨"note", [.int 3]⟩, ⟨"note", [.int 3]⟩,
          ⟨"note", [.int 4]⟩]
      ∧ (refusing.observe e scope ([], 0)).calls
        = [⟨"note", [.int 1]⟩, ⟨"note", [.int 1]⟩, ⟨"note", [.int 3]⟩]
      ∧ (refusing.eval e scope ([], 0)).result = .error failure
      ∧ (refusing.eval e scope ([], 0)).scope = scope := by
  intro note interp failure noted e scope refusing
  have hnames := interp.hasFunction_refusing 2 failure
  have hcalls : (interp.observe e scope []).calls
      = [⟨"note", [.int 1]⟩, ⟨"note", [.int 1]⟩, ⟨"note", [.int 3]⟩, ⟨"note", [.int 3]⟩,
        ⟨"note", [.int 4]⟩] := by rfl
  have hrefuses : RefusesAfter (fun t s => t.1 = s) refusing interp failure
      (interp.observe e scope []).calls 2 ([], 0) [] := by
    refine interp.refusesAfter_refusing 2 failure ?_ 2 0 [] rfl
    rw [hcalls]
    decide
  obtain ⟨hcut, -, hscope, -⟩ := eval_refused hnames rfl hrefuses
  rw [hcalls] at hcut
  obtain ⟨hcut, hresult⟩ := hcut (by decide)
  exact ⟨hnames, hrefuses, hcalls, hcut, hresult, hscope⟩

end Interpreter

end Hygiene
