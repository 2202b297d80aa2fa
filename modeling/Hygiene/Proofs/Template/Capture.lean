import Hygiene.Proofs.Evaluation.Dependence
import Hygiene.Proofs.OrderedMap

/-!
# Rewriting keeps the meaning unless a reference is captured

Pointing a name at an identifier keeps the meaning of an expression as long as the two have one
value at every mention that is rewritten. A written binder cannot come between them, since rewriting
stops at it; an *identifier* binder can, since rewriting does not look at those. So the one danger
is a `letIn` inside the expression that binds the very identifier a name is pointed at:
`Expr.captureFree` asks that no mention to be rewritten stands under one.

The rewriter carries the names shadowed on the way, the evaluator carries a stack of bindings, and
`Rewrites.Agree` is what ties the two disciplines at every node. `Rewrites.Agree.push` keeps it
across a binder, `observe_rewrite` carries it through the expression, and

> `observe_substitute`: rewriting shows the same as leaving the names alone, when the scope gives a
> name and its identifier one value and no `letIn` inside binds such an identifier.
-/

namespace Hygiene

namespace Binder

/-- The bound identifiers after this binder: an identifier joins them, a written name hides none. -/
def bindIdent (hidden : List Ident) : Binder → List Ident
  | name _ => hidden
  | ident i => i :: hidden

/-- The bound identifiers after several binders, in order. -/
def bindIdents (hidden : List Ident) (binders : List Binder) : List Ident :=
  binders.foldl bindIdent hidden

end Binder

namespace Expr

mutual

/-- Whether every mention that rewriting would point at an identifier stands outside the `letIn`s
that bind this identifier. `shadowed` and `hidden` are the names and the identifiers bound on the
way here. -/
def captureFree (rewrites : Rewrites) (shadowed : List String) (hidden : List Ident) :
    Expr → Bool
  | lit _ | ref _ => true
  | name n =>
    match rewrites.get? n with
    | some i => shadowed.contains n || !hidden.contains i
    | none => true
  | call _ args => captureFreeAll rewrites shadowed hidden args
  | letIn bindings body =>
    captureFreeBindings rewrites shadowed hidden bindings
      && captureFree rewrites (Binder.bindNames shadowed (bindings.map Prod.fst))
        (Binder.bindIdents hidden (bindings.map Prod.fst)) body
  | seq items => captureFreeAll rewrites shadowed hidden items
  | cond c t e =>
    captureFree rewrites shadowed hidden c && captureFree rewrites shadowed hidden t
      && captureFree rewrites shadowed hidden e

/-- Whether this holds of several expressions. -/
def captureFreeAll (rewrites : Rewrites) (shadowed : List String) (hidden : List Ident) :
    List Expr → Bool
  | [] => true
  | e :: es =>
    captureFree rewrites shadowed hidden e && captureFreeAll rewrites shadowed hidden es

/-- Whether this holds of the values of bindings, each under the binders before it. -/
def captureFreeBindings (rewrites : Rewrites) (shadowed : List String) (hidden : List Ident) :
    List (Binder × Expr) → Bool
  | [] => true
  | (b, e) :: rest =>
    captureFree rewrites shadowed hidden e
      && captureFreeBindings rewrites (b.bindName shadowed) (b.bindIdent hidden) rest

end

theorem captureFreeAll_iff {rewrites : Rewrites} {shadowed : List String} {hidden : List Ident}
    {es : List Expr} :
    captureFreeAll rewrites shadowed hidden es = true
      ↔ ∀ e ∈ es, e.captureFree rewrites shadowed hidden = true := by
  induction es with
  | nil => simp [captureFreeAll]
  | cons e es ih => simp [captureFreeAll, ih]

theorem captureFree_letIn_cons {rewrites : Rewrites} {shadowed : List String}
    {hidden : List Ident} {b : Binder} {e : Expr} {rest : List (Binder × Expr)} {body : Expr} :
    captureFree rewrites shadowed hidden (letIn ((b, e) :: rest) body) = true
      ↔ e.captureFree rewrites shadowed hidden = true
        ∧ captureFree rewrites (b.bindName shadowed) (b.bindIdent hidden) (letIn rest body)
          = true := by
  simp only [captureFree, captureFreeBindings, Bool.and_eq_true, List.map_cons, and_assoc]
  rfl

/-! ## Expressions that bind no identifier of the map -/

end Expr

theorem Ident.contains_eq_false_iff {i : Ident} {js : List Ident} :
    js.contains i = false ↔ ∀ j ∈ js, j.id ≠ i.id := by
  rw [List.contains_eq_any_beq, List.any_eq_false]
  refine forall₂_congr fun j _ => ?_
  rw [Ident.beq_iff, eq_comm]

/-- None of the identifiers is one that a name is rewritten to. -/
def Rewrites.Avoids (rewrites : Rewrites) (js : List Ident) : Prop :=
  ∀ n i, rewrites.get? n = some i → ∀ j ∈ js, j.id ≠ i.id

theorem Rewrites.avoids_append {rewrites : Rewrites} {js ks : List Ident} :
    rewrites.Avoids (js ++ ks) ↔ rewrites.Avoids js ∧ rewrites.Avoids ks := by
  simp only [Avoids, List.mem_append, or_imp, forall_and]

namespace Expr

/-- Without a `letIn` that binds an identifier of the map there is nothing to be captured by. -/
theorem captureFree_of_avoids {rewrites : Rewrites} (e : Expr) :
    ∀ {shadowed : List String} {hidden : List Ident}, rewrites.Avoids hidden →
      rewrites.Avoids e.boundIdents → e.captureFree rewrites shadowed hidden = true := by
  induction e using inductPeel with
  | lit v => intro shadowed hidden hh he; rfl
  | name n =>
    intro shadowed hidden hh he
    rw [captureFree]
    cases hget : rewrites.get? n with
    | none => rfl
    | some i => simp only [Ident.contains_eq_false_iff.mpr (hh n i hget), Bool.not_false, Bool.or_true]
  | ref i => intro shadowed hidden hh he; rfl
  | call f args ih =>
    intro shadowed hidden hh he
    rw [captureFree, captureFreeAll_iff]
    intro e hmem
    exact ih e hmem hh fun n i hget j hj => he n i hget j (mem_boundIdentsAll.mpr ⟨e, hmem, hj⟩)
  | letNil body ih => intro shadowed hidden hh he; exact ih hh he
  | letCons b e rest body ihe ih =>
    intro shadowed hidden hh he
    rw [boundIdents, boundIdentsBindings, List.append_assoc, List.append_assoc,
      Rewrites.avoids_append, Rewrites.avoids_append] at he
    obtain ⟨hvalue, hbinder, hrest⟩ := he
    refine captureFree_letIn_cons.mpr ⟨ihe hh hvalue, ih ?_ hrest⟩
    cases b with
    | name n => exact hh
    | ident i => exact Rewrites.avoids_append.mpr ⟨hbinder, hh⟩
  | seq items ih =>
    intro shadowed hidden hh he
    rw [captureFree, captureFreeAll_iff]
    intro e hmem
    exact ih e hmem hh fun n i hget j hj => he n i hget j (mem_boundIdentsAll.mpr ⟨e, hmem, hj⟩)
  | cond c t e ihc iht ihe =>
    intro shadowed hidden hh he
    rw [boundIdents, Rewrites.avoids_append, Rewrites.avoids_append] at he
    obtain ⟨⟨hc, ht⟩, he⟩ := he
    rw [captureFree, ihc hh hc, iht hh ht, ihe hh he]
    rfl

end Expr

/-! ## The two scope disciplines -/

/-- Two scopes as a rewritten expression (`t`) and the original (`s`) may meet them, under binders
for the names `shadowed` and the identifiers `hidden`. -/
structure Rewrites.Agree (rewrites : Rewrites) (shadowed : List String) (hidden : List Ident)
    (t s : Scope) : Prop where
  /-- A name that is rewritten has the value of its identifier. -/
  rewritten : ∀ n i, rewrites.get? n = some i → n ∉ shadowed → hidden.contains i = false →
    ∃ v, t.lookupIdent? i = some v ∧ s.lookupName? n = some v
  /-- A name that is left alone means the same. -/
  kept : ∀ n, rewrites.get? n = none ∨ n ∈ shadowed → t.lookupName? n = s.lookupName? n
  /-- A reference means the same. -/
  idents : ∀ i, t.lookupIdent? i = s.lookupIdent? i

/-- The agreement goes on under a binder with one value on both sides. -/
theorem Rewrites.Agree.push {rewrites : Rewrites} {shadowed : List String} {hidden : List Ident}
    {t s : Scope} (h : rewrites.Agree shadowed hidden t s) (b : Binder) (v : Value) :
    rewrites.Agree (b.bindName shadowed) (b.bindIdent hidden) (t.push b v) (s.push b v) := by
  refine ⟨fun n i hget hn hi => ?_, fun n hn => ?_,
    fun i => Scope.lookup?_push_congr (h.idents i) b v⟩
  · -- a value pushed under a name or an identifier of the map would part the two, so the binder has
    -- to be another one, which `shadowed` and `hidden` say
    cases b with
    | name m =>
      have hne : n ≠ m := fun heq => hn (heq ▸ List.mem_cons_self)
      rw [Scope.lookupIdent?_push_name, Scope.lookupName?_push_name, if_neg hne]
      exact h.rewritten n i hget (fun hmem => hn (List.mem_cons_of_mem m hmem)) hi
    | ident j =>
      have hi : (i == j) = false ∧ hidden.contains i = false := by
        simpa [Binder.bindIdent, List.contains_cons] using hi
      have hne : i.id ≠ j.id := fun heq => by simp [Ident.beq_iff.mpr heq] at hi
      rw [Scope.lookupIdent?_push_ident, Scope.lookupName?_push_ident, if_neg hne]
      exact h.rewritten n i hget hn hi.2
  · by_cases hb : b = .name n
    · rw [hb, Scope.lookupName?_push_name, Scope.lookupName?_push_name, if_pos rfl, if_pos rfl]
    · refine Scope.lookup?_push_congr (h.kept n (hn.imp_right fun hmem => ?_)) b v
      cases b with
      | name m =>
        rcases List.mem_cons.mp hmem with rfl | hmem
        · exact absurd rfl hb
        · exact hmem
      | ident i => exact hmem

namespace Interpreter

variable {σ : Type} (interp : Interpreter σ)

/-- **Rewriting without capture keeps the meaning**, between any two scopes that agree as the
rewriter and the evaluator need them to. -/
theorem observe_rewrite {rewrites : Rewrites} (e : Expr) :
    ∀ {shadowed : List String} {hidden : List Ident} {t s : Scope},
      rewrites.Agree shadowed hidden t s → e.captureFree rewrites shadowed hidden = true →
      ∀ host : σ,
        interp.observe (e.rewrite rewrites shadowed) t host = interp.observe e s host := by
  induction e using Expr.inductPeel with
  | lit v => intro shadowed hidden t s h hfree host; rfl
  | name n =>
    intro shadowed hidden t s h hfree host
    rw [Expr.rewrite, Expr.rewriteName]
    rw [Expr.captureFree] at hfree
    cases hget : rewrites.get? n with
    | none => simp only [observe_name, h.kept n (Or.inl hget)]
    | some i =>
      rw [hget] at hfree
      by_cases hn : n ∈ shadowed
      · -- the text binds the name itself: left alone, and bound alike in both scopes
        simp only [List.contains_iff_mem.mpr hn, if_true, observe_name, h.kept n (Or.inr hn)]
      · -- rewritten: nothing on the way may have bound the identifier
        have hcont : shadowed.contains n = false := by simpa using hn
        have hi : hidden.contains i = false := by simpa [hn] using hfree
        obtain ⟨v, ht, hs⟩ := h.rewritten n i hget hn hi
        simp only [hcont, Bool.false_eq_true, if_false, observe_ref, observe_name, ht, hs]
  | ref i =>
    intro shadowed hidden t s h hfree host
    rw [Expr.rewrite, observe_ref, observe_ref, h.idents i]
  | call f args ih =>
    intro shadowed hidden t s h hfree host
    rw [Expr.captureFree, Expr.captureFreeAll_iff] at hfree
    rw [Expr.rewrite, Expr.rewriteAll_eq_map, observe_call, observe_call,
      interp.observeEach_map_congr fun e he host => ih e he h (hfree e he) host]
  | letNil body ih =>
    intro shadowed hidden t s h hfree host
    rw [Expr.rewrite, Expr.rewriteBindings, observe_letIn_nil, observe_letIn_nil]
    rw [Expr.captureFree, Bool.and_eq_true] at hfree
    exact ih h hfree.2 host
  | letCons b e rest body ihe ih =>
    intro shadowed hidden t s h hfree host
    obtain ⟨hvalue, hrest⟩ := Expr.captureFree_letIn_cons.mp hfree
    rw [Expr.rewrite, Expr.rewriteBindings, observe_letIn_cons, observe_letIn_cons, ihe h hvalue]
    refine Observation.andThen_congr _ fun v host => ?_
    have hgo := ih (h.push b v) hrest host
    rwa [Expr.rewrite] at hgo
  | seq items ih =>
    intro shadowed hidden t s h hfree host
    rw [Expr.captureFree, Expr.captureFreeAll_iff] at hfree
    rw [Expr.rewrite, Expr.rewriteAll_eq_map, observe_seq, observe_seq,
      interp.observeEach_map_congr fun e he host => ih e he h (hfree e he) host]
  | cond c t e ihc iht ihe =>
    intro shadowed hidden u s h hfree host
    simp only [Expr.captureFree, Bool.and_eq_true, and_assoc] at hfree
    obtain ⟨hc, ht, he⟩ := hfree
    rw [Expr.rewrite, observe_cond, observe_cond, ihc h hc]
    refine Observation.andThen_congr _ fun v host => ?_
    rw [iht h ht, ihe h he]

/-- **Rewriting preserves meaning.** Where every name of a map has the value of its identifier and
no `letIn` inside binds such an identifier, the rewritten expression and the original show the same:
result, host calls and host state. Two names may share an identifier. -/
theorem observe_substitute (e : Expr) (rewrites : Rewrites) (scope : Scope) (host : σ)
    (hvalues : ∀ n i, rewrites.get? n = some i →
      ∃ v, scope.lookupName? n = some v ∧ scope.lookupIdent? i = some v)
    (havoids : ∀ n i, rewrites.get? n = some i → ∀ j ∈ e.boundIdents, j.id ≠ i.id) :
    interp.observe (e.substitute rewrites) scope host = interp.observe e scope host := by
  rw [Expr.substitute_eq_rewrite]
  have hagree : rewrites.Agree [] [] scope scope := by
    refine ⟨fun n i hget _ _ => ?_, fun n _ => rfl, fun i => rfl⟩
    obtain ⟨v, hname, hident⟩ := hvalues n i hget
    exact ⟨v, hident, hname⟩
  have hhidden : rewrites.Avoids [] := by
    intro n i _ j hj
    cases hj
  exact interp.observe_rewrite e hagree (e.captureFree_of_avoids hhidden havoids) host

/-- Two names for one identifier, one of them shadowed inside: `x` outside the `letIn` and `y` in it
are rewritten, `x` in it is not. -/
theorem observe_substitute_shared :
    let i : Ident := ⟨0, "x"⟩
    let rewrites : Rewrites := ⟨[("x", i), ("y", i)]⟩
    let e : Expr := .call "note" [.name "x",
      .letIn [(.name "x", .name "y")] (.call "note" [.name "x", .name "y"])]
    let scope : Scope := ⟨[(.name "x", .int 1), (.ident i, .int 1), (.name "y", .int 1)]⟩
    let note : HostFunction (List Value) := fun args seen => (.ok (.list args), seen ++ args)
    let interp : Interpreter (List Value) := ⟨⟨[("note", note)]⟩⟩
    interp.observe (e.substitute rewrites) scope [] = interp.observe e scope [] := by
  intro i rewrites e scope note interp
  have hrange : ∀ n j, rewrites.get? n = some j → (n = "x" ∨ n = "y") ∧ j = i := by
    intro n j hget
    obtain ⟨entry, hmem, hkey, rfl⟩ := OrderedMap.mem_of_get?_eq_some hget
    rcases List.mem_cons.mp hmem with rfl | hmem
    · exact ⟨Or.inl (eq_of_beq hkey), rfl⟩
    · obtain rfl := List.mem_singleton.mp hmem
      exact ⟨Or.inr (eq_of_beq hkey), rfl⟩
  refine interp.observe_substitute e rewrites scope [] (fun n j hget => ?_) (fun n j hget k hk => ?_)
  · obtain ⟨rfl | rfl, rfl⟩ := hrange n j hget
    · exact ⟨.int 1, rfl, rfl⟩
    · exact ⟨.int 1, rfl, rfl⟩
  · cases hk

end Interpreter

end Hygiene
