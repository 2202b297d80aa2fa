import Hygiene.Proofs.Evaluation.Observation
import Hygiene.Proofs.Evaluation.Scopes
import Hygiene.Proofs.Template.FreeNames

/-!
# What an evaluation depends on

A run reads a scope only where the expression mentions a free name or an identifier. Two scopes that
agree there may differ in everything else, depth and order included: `observe_congr`. The induction
carries the names bound on the way (`Scope.AgreeFor`), on which the scopes agree because the same
bindings have been pushed on both. What an expression reads is what its two analyses find:

> `Interpreter.observe_eq_of_mentions`: scopes that agree on the free names and on every identifier with
> a reference make an expression show the same.
-/

namespace Hygiene

namespace Scope

/-- The scopes give one answer to everything that an expression reads, where `bound` are names bound
on the way to it. -/
structure AgreeFor (bound : List String) (e : Expr) (t s : Scope) : Prop where
  names : ∀ n, n ∈ bound ∨ n ∈ e.freeOccurrences bound → t.lookupName? n = s.lookupName? n
  idents : ∀ i ∈ e.refIdents, t.lookupIdent? i = s.lookupIdent? i

namespace AgreeFor

variable {bound : List String} {t s : Scope}

/-- Agreement passes to a part whose mentions are among those of the whole. -/
theorem part {e e' : Expr} (h : AgreeFor bound e t s)
    (hnames : ∀ n ∈ e'.freeOccurrences bound, n ∈ e.freeOccurrences bound)
    (hidents : ∀ i ∈ e'.refIdents, i ∈ e.refIdents) : AgreeFor bound e' t s :=
  ⟨fun n hn => h.names n (hn.imp_right (hnames n)), fun i hi => h.idents i (hidents i hi)⟩

theorem item {items : List Expr} (h : AgreeFor bound (.seq items) t s) {e : Expr}
    (he : e ∈ items) : AgreeFor bound e t s := by
  refine h.part (fun n hn => ?_) (fun i hi => ?_)
  · rw [Expr.freeOccurrences]
    exact Expr.mem_freeOccurrencesAll.mpr ⟨e, he, hn⟩
  · rw [Expr.refIdents]
    exact Expr.mem_refIdentsAll.mpr ⟨e, he, hi⟩

theorem arg {f : String} {args : List Expr} (h : AgreeFor bound (.call f args) t s)
    {e : Expr} (he : e ∈ args) : AgreeFor bound e t s := by
  -- a call reads what its arguments read, and nothing for the function
  have hseq : AgreeFor bound (.seq args) t s := ⟨h.names, h.idents⟩
  exact hseq.item he

theorem letIn_body {body : Expr} (h : AgreeFor bound (.letIn [] body) t s) :
    AgreeFor bound body t s := by
  refine h.part (fun n hn => ?_) (fun i hi => ?_)
  · exact List.mem_append_right _ hn
  · exact List.mem_append_right _ hi

theorem letIn_value {b : Binder} {e : Expr} {rest : List (Binder × Expr)} {body : Expr}
    (h : AgreeFor bound (.letIn ((b, e) :: rest) body) t s) : AgreeFor bound e t s := by
  refine h.part (fun n hn => ?_) (fun i hi => ?_)
  · exact List.mem_append_left _ (List.mem_append_left _ hn)
  · exact List.mem_append_left _ (List.mem_append_left _ hi)

/-- Pushing the first binding keeps the agreement, for the `letIn` of the other bindings. -/
theorem letIn_rest {b : Binder} {e : Expr} {rest : List (Binder × Expr)} {body : Expr}
    (h : AgreeFor bound (.letIn ((b, e) :: rest) body) t s) (v : Value) :
    AgreeFor (b.bindName bound) (.letIn rest body) (t.push b v) (s.push b v) := by
  have hfree : ∀ n ∈ (Expr.letIn rest body).freeOccurrences (b.bindName bound),
      n ∈ (Expr.letIn ((b, e) :: rest) body).freeOccurrences bound := by
    intro n hn
    rw [Expr.freeOccurrences, Expr.freeOccurrencesBindings, List.append_assoc]
    exact List.mem_append_right _ hn
  constructor
  · intro n hn
    by_cases hb : b = .name n
    · -- the name just bound has the pushed value on both sides
      rw [hb, lookupName?_push_name, lookupName?_push_name, if_pos rfl, if_pos rfl]
    · refine lookup?_push_congr (h.names n ?_) b v
      rcases hn with hn | hn
      · cases b with
        | name m =>
          rcases List.mem_cons.mp hn with rfl | hn
          · exact absurd rfl hb
          · exact Or.inl hn
        | ident i => exact Or.inl hn
      · exact Or.inr (hfree n hn)
  · intro i hi
    refine lookup?_push_congr (h.idents i ?_) b v
    rw [Expr.refIdents, Expr.refIdentsBindings, List.append_assoc]
    exact List.mem_append_right _ hi

end AgreeFor

end Scope

namespace Interpreter

variable {σ : Type} (interp : Interpreter σ)

theorem observeEach_congr {es : List Expr} {t s : Scope}
    (h : ∀ e ∈ es, ∀ host, interp.observe e t host = interp.observe e s host) (host : σ) :
    interp.observeEach es t host = interp.observeEach es s host := by
  have hmap := interp.observeEach_map_congr (f := id) h host
  rwa [List.map_id] at hmap

/-- **Only what is mentioned matters.** Scopes that agree on what an expression reads make it show
the same. -/
theorem observe_congr (e : Expr) : ∀ {bound : List String} {t s : Scope},
    Scope.AgreeFor bound e t s → ∀ host : σ, interp.observe e t host = interp.observe e s host := by
  induction e using Expr.inductPeel with
  | lit v => intro bound t s h host; rfl
  | name n =>
    intro bound t s h host
    have hn : n ∈ bound ∨ n ∈ (Expr.name n).freeOccurrences bound := by
      rw [Expr.freeOccurrences]
      by_cases hb : n ∈ bound
      · exact Or.inl hb
      · exact Or.inr (by simp [hb])
    rw [observe_name, observe_name, h.names n hn]
  | ref i =>
    intro bound t s h host
    rw [observe_ref, observe_ref, h.idents i List.mem_cons_self]
  | call f args ih =>
    intro bound t s h host
    rw [observe_call, observe_call,
      interp.observeEach_congr fun e he host => ih e he (h.arg he) host]
  | letNil body ih =>
    intro bound t s h host
    rw [observe_letIn_nil, observe_letIn_nil, ih h.letIn_body]
  | letCons b e rest body ihe ih =>
    intro bound t s h host
    rw [observe_letIn_cons, observe_letIn_cons, ihe h.letIn_value]
    exact Observation.andThen_congr _ fun v host => ih (h.letIn_rest v) host
  | seq items ih =>
    intro bound t s h host
    rw [observe_seq, observe_seq,
      interp.observeEach_congr fun e he host => ih e he (h.item he) host]
  | cond c t e ihc iht ihe =>
    intro bound u s h host
    have hpart : ∀ x ∈ [c, t, e], Scope.AgreeFor bound x u s := by
      intro x hx
      refine h.part (fun n hn => ?_) (fun i hi => ?_)
      · rw [Expr.freeOccurrences]
        grind
      · rw [Expr.refIdents]
        grind
    rw [observe_cond, observe_cond, ihc (hpart c (by simp))]
    refine Observation.andThen_congr _ fun v host => ?_
    rw [iht (hpart t (by simp)), ihe (hpart e (by simp))]

/-- **An evaluation depends only on what the expression mentions.** Two scopes of any depth and order
that give one answer, a value or none, to every free name of an expression and to every identifier that
it counts a reference to make it show the same: result, host calls and host state. -/
theorem observe_eq_of_mentions {e : Expr} {t s : Scope}
    (hnames : ∀ n ∈ e.freeNames, t.lookupName? n = s.lookupName? n)
    (hidents : ∀ i, 0 < e.countRefs i → t.lookupIdent? i = s.lookupIdent? i) (host : σ) :
    interp.observe e t host = interp.observe e s host := by
  have hagree : Scope.AgreeFor [] e t s := by
    constructor
    · intro n hn
      exact hnames n (Expr.mem_freeNames.mpr (hn.resolve_left List.not_mem_nil))
    · intro i hi
      exact hidents i (Expr.countRefs_pos_of_mem hi)
  exact interp.observe_congr e hagree host

/-- The scopes have neither depth nor order in common, and they disagree on `x`, which the `letIn`
binds before it reads it, and on what stands under a binding that hides it. Neither binds `z`. -/
theorem observe_eq_of_mentions_hidden :
    let i : Ident := ⟨3, "i"⟩
    let e : Expr := .seq [.letIn [(.name "x", .call "note" [.name "y"])]
      (.call "note" [.name "x", .ref i]), .name "z", .call "note" []]
    let t : Scope := ⟨[(.name "y", .int 1), (.ident ⟨3, "j"⟩, .int 2)]⟩
    let s : Scope := ⟨[(.ident i, .int 2), (.ident i, .int 5), (.name "x", .int 7), (.name "y", .int 1),
      (.name "y", .nil)]⟩
    let note : HostFunction (List Value) := fun args seen => (.ok (.list args), seen ++ args)
    let interp : Interpreter (List Value) := ⟨⟨[("note", note)]⟩⟩
    (∀ n ∈ e.freeNames, t.lookupName? n = s.lookupName? n)
      ∧ (∀ j, 0 < e.countRefs j → t.lookupIdent? j = s.lookupIdent? j)
      ∧ interp.observe e t [] = interp.observe e s []
      ∧ (interp.observe e s []).calls = [⟨"note", [.int 1]⟩, ⟨"note", [.list [.int 1], .int 2]⟩]
      ∧ (interp.observe e s []).result = .error (.unresolvedName "z") := by
  intro i e t s note interp
  have hnames : ∀ n ∈ e.freeNames, t.lookupName? n = s.lookupName? n := by
    rw [show e.freeNames = ["y", "z"] by rfl, List.forall_mem_cons, List.forall_mem_singleton]
    exact ⟨rfl, rfl⟩
  have hidents : ∀ j, 0 < e.countRefs j → t.lookupIdent? j = s.lookupIdent? j := by
    intro ⟨id, hint⟩ hj
    rw [Expr.countRefs_eq_countP, List.countP_pos_iff] at hj
    obtain ⟨k, hk, hkj⟩ := hj
    obtain rfl := List.mem_singleton.mp hk
    obtain rfl : 3 = id := Ident.beq_iff.mp hkj
    rfl
  exact ⟨hnames, hidents, interp.observe_eq_of_mentions hnames hidents [], rfl, rfl⟩

end Interpreter

end Hygiene
