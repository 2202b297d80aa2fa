import Hygiene.Evaluation.Primitives
import Hygiene.Proofs.Template.FreeNames
import Hygiene.Proofs.Template.FreeRefs

/-!
# Scope safety

An evaluation looks names and identifiers up on a stack of values; what is free in an expression is
told without running it. The two agree on what is in scope: a lookup fails only for a name or a
reference that is free, and only where the scope given does not bind it either
(`free_of_observe_error`). The induction carries what the binders on the way have put on the stack
(`Scope.Covers`).

Host functions may fail as they like, but a failure they make up says nothing about scopes. Those
that leave the two kinds of lookup failure alone are `Interpreter.Quiet`, among them the primitives
(`quiet_standard`).

> `scope_safety`: with quiet functions, a name that does not resolve is free and not bound outside, a
> reference that is not bound stands in no `letIn` of its identifier, and an expansion never fails to
> find what it has bound itself.
-/

namespace Hygiene

/-! ## Failures of lookup -/

/-- What is bound on the way is found on the stack. -/
structure Scope.Covers (scope : Scope) (bound : List String) (hidden : List Ident) : Prop where
  names : ∀ n ∈ bound, scope.lookupName? n ≠ none
  idents : ∀ i, hidden.contains i = true → scope.lookupIdent? i ≠ none

namespace Scope

variable {scope : Scope} {bound : List String} {hidden : List Ident}

theorem covers_nil (scope : Scope) : scope.Covers [] [] :=
  ⟨fun _ h => (nomatch h), fun _ h => (nomatch h)⟩

/-- What a push does not answer for, the scope under it does not either. -/
theorem lookup?_eq_none_of_push {b c : Binder} {v : Value}
    (h : (scope.push c v).lookup? b = none) : (b == c) = false ∧ scope.lookup? b = none := by
  rw [lookup?_push] at h
  cases hbc : b == c with
  | true => rw [hbc] at h; cases h
  | false => rw [hbc] at h; exact ⟨rfl, h⟩

theorem Covers.push (h : scope.Covers bound hidden) (b : Binder) (v : Value) :
    (scope.push b v).Covers (b.bindName bound) (b.bindIdent hidden) := by
  constructor
  · intro n hn hnone
    obtain ⟨hne, hunder⟩ := lookup?_eq_none_of_push hnone
    cases b with
    | name m =>
      rcases List.mem_cons.mp hn with rfl | hn
      · rw [Binder.name_beq_name, beq_self_eq_true] at hne; cases hne
      · exact h.names n hn hunder
    | ident i => exact h.names n hn hunder
  · intro i hi hnone
    obtain ⟨hne, hunder⟩ := lookup?_eq_none_of_push hnone
    cases b with
    | name m => exact h.idents i hi hunder
    | ident j =>
      rcases Bool.or_eq_true_iff.mp hi with hi | hi
      · exact Ident.beq_eq_false_iff.mp hne (Ident.beq_iff.mp hi)
      · exact h.idents i hi hunder

end Scope

namespace Failure

/-- A name or a reference was looked up in vain. -/
def OfLookup : Failure → Prop
  | unresolvedName _ | unbound _ => True
  | _ => False

/-- A failed lookup was for something that is free in the expression, under what is bound on the way,
and that the scope does not bind. -/
def OfFree (e : Expr) (bound : List String) (hidden : List Ident) (scope : Scope) : Failure → Prop
  | unresolvedName n => n ∈ e.freeOccurrences bound ∧ scope.lookupName? n = none
  | unbound i => i ∈ e.freeRefs hidden ∧ scope.lookupIdent? i = none
  | _ => True

variable {bound : List String} {hidden : List Ident} {scope : Scope} {failure : Failure}

theorem ofFree_of_not_ofLookup (e : Expr) (h : ¬ failure.OfLookup) :
    failure.OfFree e bound hidden scope := by
  cases failure with
  | unbound i => exact absurd trivial h
  | unresolvedName n => exact absurd trivial h
  | unknownFunction f => trivial
  | host f detail => trivial
  | fault cause => trivial

namespace OfFree

/-- What is free in a part is free in the whole. -/
theorem whole {e e' : Expr} (h : failure.OfFree e' bound hidden scope)
    (hnames : ∀ n ∈ e'.freeOccurrences bound, n ∈ e.freeOccurrences bound)
    (hrefs : ∀ i ∈ e'.freeRefs hidden, i ∈ e.freeRefs hidden) :
    failure.OfFree e bound hidden scope := by
  cases failure with
  | unbound i => exact ⟨hrefs i h.1, h.2⟩
  | unresolvedName n => exact ⟨hnames n h.1, h.2⟩
  | unknownFunction f => trivial
  | host f detail => trivial
  | fault cause => trivial

theorem seq {items : List Expr} {e : Expr} (he : e ∈ items)
    (h : failure.OfFree e bound hidden scope) :
    failure.OfFree (.seq items) bound hidden scope :=
  h.whole (fun _ hn => Expr.mem_freeOccurrencesAll.mpr ⟨e, he, hn⟩)
    (fun _ hi => Expr.mem_freeRefsAll.mpr ⟨e, he, hi⟩)

theorem letIn_value {b : Binder} {e : Expr} {rest : List (Binder × Expr)} {body : Expr}
    (h : failure.OfFree e bound hidden scope) :
    failure.OfFree (.letIn ((b, e) :: rest) body) bound hidden scope := by
  refine h.whole (fun n hn => ?_) (fun i hi => ?_)
  · rw [Expr.freeOccurrences_letIn_cons]
    exact List.mem_append_left _ hn
  · rw [Expr.freeRefs_letIn_cons]
    exact List.mem_append_left _ hi

/-- What is free behind a binder and not bound under it is free before it and not bound there. -/
theorem letIn_rest {b : Binder} {e : Expr} {rest : List (Binder × Expr)} {body : Expr} {v : Value}
    (h : failure.OfFree (.letIn rest body) (b.bindName bound) (b.bindIdent hidden)
      (scope.push b v)) :
    failure.OfFree (.letIn ((b, e) :: rest) body) bound hidden scope := by
  cases failure with
  | unbound i =>
    obtain ⟨hfree, hnone⟩ := h
    refine ⟨?_, (Scope.lookup?_eq_none_of_push hnone).2⟩
    rw [Expr.freeRefs_letIn_cons]
    exact List.mem_append_right _ hfree
  | unresolvedName n =>
    obtain ⟨hfree, hnone⟩ := h
    refine ⟨?_, (Scope.lookup?_eq_none_of_push hnone).2⟩
    rw [Expr.freeOccurrences_letIn_cons]
    exact List.mem_append_right _ hfree
  | unknownFunction f => trivial
  | host f detail => trivial
  | fault cause => trivial

end OfFree

end Failure

/-- A run in two steps fails in the first or in the second. -/
theorem Observation.result_andThen_eq_error {σ α β : Type} {o : Observation σ α}
    {next : α → σ → Observation σ β} {failure : Failure}
    (h : (o.andThen next).result = .error failure) :
    o.result = .error failure ∨ ∃ a, (next a o.host).result = .error failure := by
  unfold andThen at h
  cases hresult : o.result with
  | error failure' => rw [hresult] at h; exact Or.inl (congrArg _ (Except.error.inj h))
  | ok a => rw [hresult] at h; exact Or.inr ⟨a, h⟩

namespace Interpreter

variable {σ : Type} {interp : Interpreter σ}

/-- No function of the host fails the way a lookup does. -/
def Quiet (interp : Interpreter σ) : Prop :=
  ∀ f ∈ interp.functions.values, ∀ args host failure, (f args host).1 = .error failure →
    ¬ failure.OfLookup

theorem Quiet.observeCall (hquiet : interp.Quiet) {f : String} {args : List Value} {host : σ}
    {failure : Failure} (h : (interp.observeCall f args host).result = .error failure) :
    ¬ failure.OfLookup := by
  unfold Interpreter.observeCall at h
  cases hf : interp.functions.get? f with
  | none =>
    rw [hf] at h
    obtain rfl : Failure.unknownFunction f = failure := Except.error.inj h
    exact id
  | some g =>
    rw [hf] at h
    exact hquiet g (OrderedMap.mem_values_of_get? hf) args host failure h

/-- Of expressions run in order, one fails with the failure of the whole run. -/
theorem exists_of_observeEach_error {es : List Expr} {scope : Scope} {failure : Failure} :
    ∀ {host : σ}, (interp.observeEach es scope host).result = .error failure →
      ∃ e ∈ es, ∃ host, (interp.observe e scope host).result = .error failure := by
  induction es with
  | nil => intro host h; cases h
  | cons e es ih =>
    intro host h
    rw [observeEach] at h
    rcases Observation.result_andThen_eq_error h with h | ⟨v, h⟩
    · exact ⟨e, List.mem_cons_self, host, h⟩
    · rcases Observation.result_andThen_eq_error h with h | ⟨vs, h⟩
      · obtain ⟨e', he', hfail⟩ := ih h
        exact ⟨e', List.mem_cons_of_mem e he', hfail⟩
      · cases h

/-- **A lookup fails only for what is free**, and only where the scope does not bind it. -/
theorem free_of_observe_error (hquiet : interp.Quiet) {failure : Failure} (e : Expr) :
    ∀ {bound : List String} {hidden : List Ident} {scope : Scope} {host : σ},
      scope.Covers bound hidden → (interp.observe e scope host).result = .error failure →
      failure.OfFree e bound hidden scope := by
  induction e using Expr.inductPeel with
  | lit v => intro bound hidden scope host _ h; cases h
  | name n =>
    intro bound hidden scope host hcovers h
    rw [observe_name] at h
    cases hn : scope.lookupName? n with
    | some v => rw [hn] at h; cases h
    | none =>
      rw [hn] at h
      obtain rfl : Failure.unresolvedName n = failure := Except.error.inj h
      have hnot : n ∉ bound := fun hmem => hcovers.names n hmem hn
      exact ⟨by simp [Expr.freeOccurrences, hnot], hn⟩
  | ref i =>
    intro bound hidden scope host hcovers h
    rw [observe_ref] at h
    cases hi : scope.lookupIdent? i with
    | some v => rw [hi] at h; cases h
    | none =>
      rw [hi] at h
      obtain rfl : Failure.unbound i = failure := Except.error.inj h
      have hnot : ¬ hidden.contains i = true := fun hmem => hcovers.idents i hmem hi
      exact ⟨by rw [Expr.freeRefs, if_neg hnot]; exact List.mem_cons_self, hi⟩
  | call f args ih =>
    intro bound hidden scope host hcovers h
    rw [observe_call] at h
    rcases Observation.result_andThen_eq_error h with h | ⟨vs, h⟩
    · obtain ⟨e, he, host, h⟩ := exists_of_observeEach_error h
      -- a call has the free mentions of its arguments, like a sequence of them
      exact ((ih e he hcovers h).seq he).whole (fun _ hn => hn) (fun _ hi => hi)
    · exact Failure.ofFree_of_not_ofLookup _ (hquiet.observeCall h)
  | letNil body ih =>
    intro bound hidden scope host hcovers h
    rw [observe_letIn_nil] at h
    exact (ih hcovers h).whole (fun _ hn => hn) (fun _ hi => hi)
  | letCons b e rest body ihe ih =>
    intro bound hidden scope host hcovers h
    rw [observe_letIn_cons] at h
    -- the value fails in the scope as it is, or what follows fails one binding deeper
    rcases Observation.result_andThen_eq_error h with h | ⟨v, h⟩
    · exact (ihe hcovers h).letIn_value
    · exact (ih (hcovers.push b v) h).letIn_rest
  | seq items ih =>
    intro bound hidden scope host hcovers h
    rw [observe_seq] at h
    rcases Observation.result_andThen_eq_error h with h | ⟨vs, h⟩
    · obtain ⟨e, he, host, h⟩ := exists_of_observeEach_error h
      exact (ih e he hcovers h).seq he
    · cases h
  | cond c t e ihc iht ihe =>
    intro bound hidden scope host hcovers h
    have hpart : ∀ x ∈ [c, t, e], failure.OfFree x bound hidden scope →
        failure.OfFree (.cond c t e) bound hidden scope := by
      intro x hx hfree
      refine hfree.whole (fun n hn => ?_) (fun i hi => ?_)
      · rw [Expr.freeOccurrences]
        grind
      · rw [Expr.freeRefs]
        grind
    rw [observe_cond] at h
    rcases Observation.result_andThen_eq_error h with h | ⟨v, h⟩
    · exact hpart c (by simp) (ihc hcovers h)
    · by_cases hv : v.isTruthy = true
      · rw [if_pos hv] at h
        exact hpart t (by simp) (iht hcovers h)
      · rw [if_neg hv] at h
        exact hpart e (by simp) (ihe hcovers h)

/-! ## Functions that are quiet -/

theorem quiet_empty : Quiet ({} : Interpreter σ) := fun _ h => (nomatch h)

theorem Quiet.register (hquiet : interp.Quiet) {name : String} {f : HostFunction σ}
    (hf : ∀ args host failure, (f args host).1 = .error failure → ¬ failure.OfLookup) :
    (interp.register name f).Quiet := by
  intro g hg
  rcases OrderedMap.mem_values_insert hg with hg | rfl
  · exact hquiet g hg
  · exact hf

end Interpreter

namespace Primitive

variable {failure : Failure}

theorem not_ofLookup_of_integer {function : String} {v : Value}
    (h : integer function v = .error failure) : ¬ failure.OfLookup := by
  unfold integer at h
  split at h
  · cases h
  · obtain rfl := Except.error.inj h
    exact id

theorem not_ofLookup_of_addFrom {args : List Value} :
    ∀ {sum : Int64}, addFrom sum args = .error failure → ¬ failure.OfLookup := by
  induction args with
  | nil => intro sum h; cases h
  | cons v rest ih =>
    intro sum h
    rw [addFrom] at h
    split at h
    next hv => exact Except.error.inj h ▸ not_ofLookup_of_integer hv
    next =>
      split at h
      next => obtain rfl := Except.error.inj h; exact id
      next => exact ih h

theorem not_ofLookup_of_sliceWithin {target : Value} {start : Int64} {stop : Option Int64}
    (h : sliceWithin target start stop = .error failure) : ¬ failure.OfLookup := by
  unfold sliceWithin at h
  split at h
  next => obtain rfl := Except.error.inj h; exact id
  next =>
    split at h
    next => obtain rfl := Except.error.inj h; exact id
    next => split at h <;> cases h

theorem not_ofLookup_of_slice {args : List Value} (h : slice args = .error failure) :
    ¬ failure.OfLookup := by
  unfold slice at h
  split at h
  next =>
    split at h
    next hstart => exact Except.error.inj h ▸ not_ofLookup_of_integer hstart
    next => exact not_ofLookup_of_sliceWithin h
  next =>
    split at h
    next hstart => exact Except.error.inj h ▸ not_ofLookup_of_integer hstart
    next =>
      split at h
      next hstop => exact Except.error.inj h ▸ not_ofLookup_of_integer hstop
      next => exact not_ofLookup_of_sliceWithin h
  next => obtain rfl := Except.error.inj h; exact id

end Primitive

namespace Interpreter

variable {σ : Type} {interp : Interpreter σ}

/-- The primitives never fail the way a lookup does. -/
theorem quiet_standard : Quiet (standard : Interpreter σ) := by
  refine (((quiet_empty.register ?_).register ?_).register ?_).register ?_
  · exact fun _ _ _ h => Primitive.not_ofLookup_of_addFrom h
  · exact fun _ _ _ h => nomatch h
  · exact fun _ _ _ h => nomatch h
  · exact fun _ _ _ h => Primitive.not_ofLookup_of_slice h

end Interpreter

namespace Interpreter

/-- **Scope safety.** Where host functions leave the failures of lookup alone, a name that does not
resolve is one of the free names and is not bound in the scope given; a reference that is not bound
stands in no `letIn` that has bound its identifier before, and is not bound in the scope given. So
with all free names bound every name resolves, and an expansion never fails to find an identifier of
its own set. -/
theorem scope_safety {σ : Type} {interp : Interpreter σ} (hquiet : interp.Quiet) :
    (∀ (e : Expr) (scope : Scope) (host : σ),
      (∀ n, (interp.eval e scope host).result = .error (.unresolvedName n) →
        n ∈ e.freeNames ∧ scope.lookupName? n = none) ∧
      (∀ i, (interp.eval e scope host).result = .error (.unbound i) →
        i ∈ e.freeRefs [] ∧ scope.lookupIdent? i = none) ∧
      ((∀ n ∈ e.freeNames, scope.lookupName? n ≠ none) →
        ∀ n, (interp.eval e scope host).result ≠ .error (.unresolvedName n))) ∧
    ∀ (bindings : List (String × Expr)) (body : Expr) (supply supply' : Supply) (set : BindingSet),
      supply.next.toNat + 2 * bindings.length ≤ 2 ^ 64 → (∀ b ∈ bindings, supply.Precedes b.2) →
      BindingSet.ofList bindings supply = (.ok set, supply') →
      ∃ e, onceOnly bindings body supply = (.ok e, supply') ∧
        ∀ (scope : Scope) (host : σ) (name : String) (i j : Ident), set.binding? name = some i →
          (interp.eval e scope host).result = .error (.unbound j) → j.id ≠ i.id := by
  have hname : ∀ (e : Expr) (scope : Scope) (host : σ) (n : String),
      (interp.eval e scope host).result = .error (.unresolvedName n) →
      n ∈ e.freeNames ∧ scope.lookupName? n = none := by
    intro e scope host n h
    obtain ⟨hfree, hnone⟩ := free_of_observe_error hquiet e scope.covers_nil h
    exact ⟨Expr.mem_freeNames.mpr hfree, hnone⟩
  have hident : ∀ (e : Expr) (scope : Scope) (host : σ) (i : Ident),
      (interp.eval e scope host).result = .error (.unbound i) →
      i ∈ e.freeRefs [] ∧ scope.lookupIdent? i = none := by
    intro e scope host i h
    exact free_of_observe_error hquiet e scope.covers_nil h
  refine ⟨fun e scope host => ⟨hname e scope host, hident e scope host, ?_⟩, ?_⟩
  · intro hbound n h
    obtain ⟨hfree, hnone⟩ := hname e scope host n h
    exact hbound n hfree hnone
  · intro bindings body supply supply' set hroom hforms hset
    refine ⟨set.wrap body, by rw [onceOnly, hset], fun scope host name i j hi h => ?_⟩
    exact BindingSet.id_ne_of_mem_freeRefs_wrap hroom hforms hset hi (hident _ scope host j h).1

/-- With the primitives: `v` is free in the value of its own `letIn`, and the expansion that reads it
twice fails for that name and for nothing else. -/
theorem scope_safety_standard :
    let interp : Interpreter Unit := standard
    let e : Expr := .letIn [(.name "v", .call "+" [.name "v", .lit (.int 1)])] (.name "v")
    (interp.eval e {} ()).result = .error (.unresolvedName "v") ∧ "v" ∈ e.freeNames ∧
      ∃ expanded, onceOnly [("w", e)] (.call "list" [.name "w", .name "w"]) {} = (.ok expanded, ⟨2⟩) ∧
        ∀ (scope : Scope) (j : Ident),
          (interp.eval expanded scope ()).result = .error (.unbound j) → j.id ≠ 0 := by
  intro interp e
  have hfails : (interp.eval e {} ()).result = .error (.unresolvedName "v") := rfl
  have hquiet : interp.Quiet := quiet_standard
  obtain ⟨hnames, hexpansions⟩ := scope_safety hquiet
  obtain ⟨expanded, hexpanded, hsafe⟩ := hexpansions [("w", e)]
    (.call "list" [.name "w", .name "w"]) {} ⟨2⟩ _ (by decide) (by decide) rfl
  refine ⟨hfails, ((hnames e {} ()).1 "v" hfails).1, expanded, hexpanded, fun scope j h => ?_⟩
  exact hsafe scope () "w" ⟨0, "w"⟩ j rfl h

end Interpreter

end Hygiene
