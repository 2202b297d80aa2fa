import Hygiene.Template.FreeNames
import Hygiene.Template.Rewriting

/-!
# Identifiers in an expression

An expression holds expressions inside lists, of arguments and of bindings, so an induction on it
needs a hypothesis for every member of such a list. `Expr.induct` gives one, and `induction e` uses
it from here on. Where every binding of a `letIn` changes what the others are read under, a list of
hypotheses is of no use: `Expr.inductPeel` takes the bindings off one at a time instead.

An identifier stands in an expression in two ways: a reference reads it (`Expr.refIdents`) and a
`letIn` binds it (`Expr.boundIdents`). Both lists keep repetitions and the order of the text, and
`countRefs` counts in the first of them (`countRefs_eq_countP`).

Rewriting a mention and rewriting a `letIn` are said once here (`rewrite_name`, `rewrite_letIn_cons`).
Where no free mention is of a name in the map nothing changes (`rewrite_eq_self`). The walk that does it
threads one stack through everything it comes past, and gives it back as it got it from every expression
(`walkRewrite_eq`); it is not taken when there is nothing to rewrite, and nothing but time is saved by
that:

> `Expr.substitute_eq_rewrite`: substituting is rewriting under no shadow.
-/

namespace Hygiene.Expr

/-- Induction on an expression, with a hypothesis for every member of a list inside it. -/
@[induction_eliminator]
theorem induct {motive : Expr → Prop}
    (lit : ∀ v, motive (.lit v)) (name : ∀ n, motive (.name n)) (ref : ∀ i, motive (.ref i))
    (call : ∀ function args, (∀ e ∈ args, motive e) → motive (.call function args))
    (letIn : ∀ bindings body, (∀ b ∈ bindings, motive b.2) → motive body →
      motive (.letIn bindings body))
    (seq : ∀ items, (∀ e ∈ items, motive e) → motive (.seq items))
    (cond : ∀ condition yes no, motive condition → motive yes → motive no →
      motive (.cond condition yes no))
    (e : Expr) : motive e := by
  refine @Expr.rec motive (fun es => ∀ e ∈ es, motive e) (fun bs => ∀ b ∈ bs, motive b.2)
    (fun b => motive b.2) lit name ref call letIn seq cond ?_ ?_ ?_ ?_ ?_ e
  · intro e he
    cases he
  · intro e es he hes e' hmem
    rcases List.mem_cons.mp hmem with rfl | hmem
    · exact he
    · exact hes e' hmem
  · intro b hb
    cases hb
  · intro b bs hb hbs b' hmem
    rcases List.mem_cons.mp hmem with rfl | hmem
    · exact hb
    · exact hbs b' hmem
  · intro _ _ he
    exact he

/-- Induction on an expression where a `letIn` is its first binding and the `letIn` of the others. -/
theorem inductPeel {motive : Expr → Prop}
    (lit : ∀ v, motive (.lit v)) (name : ∀ n, motive (.name n)) (ref : ∀ i, motive (.ref i))
    (call : ∀ function args, (∀ e ∈ args, motive e) → motive (.call function args))
    (letNil : ∀ body, motive body → motive (.letIn [] body))
    (letCons : ∀ binder value rest body, motive value → motive (.letIn rest body) →
      motive (.letIn ((binder, value) :: rest) body))
    (seq : ∀ items, (∀ e ∈ items, motive e) → motive (.seq items))
    (cond : ∀ condition yes no, motive condition → motive yes → motive no →
      motive (.cond condition yes no))
    (e : Expr) : motive e := by
  induction e with
  | lit v => exact lit v
  | name n => exact name n
  | ref i => exact ref i
  | call f args ih => exact call f args ih
  | letIn bindings body ihb ih =>
    induction bindings with
    | nil => exact letNil body ih
    | cons b rest ihrest =>
      have hrest := ihrest fun b hb => ihb b (List.mem_cons_of_mem _ hb)
      exact letCons b.1 b.2 rest body (ihb b List.mem_cons_self) hrest
  | seq items ih => exact seq items ih
  | cond c t e ihc iht ihe => exact cond c t e ihc iht ihe

/-! ## Where identifiers stand -/

mutual

/-- The identifiers that an expression reads, left to right. -/
def refIdents : Expr → List Ident
  | lit _ | name _ => []
  | ref i => [i]
  | call _ args => refIdentsAll args
  | letIn bindings body => refIdentsBindings bindings ++ refIdents body
  | seq items => refIdentsAll items
  | cond c t e => refIdents c ++ refIdents t ++ refIdents e

/-- The identifiers that several expressions read. -/
def refIdentsAll : List Expr → List Ident
  | [] => []
  | e :: es => refIdents e ++ refIdentsAll es

/-- The identifiers that the values of bindings read. -/
def refIdentsBindings : List (Binder × Expr) → List Ident
  | [] => []
  | (_, e) :: rest => refIdents e ++ refIdentsBindings rest

end

end Hygiene.Expr

namespace Hygiene.Binder

/-- The identifier that a binder introduces, if it introduces one. -/
def idents : Binder → List Ident
  | name _ => []
  | ident i => [i]

end Hygiene.Binder

namespace Hygiene.Expr

mutual

/-- The identifiers that the `letIn`s of an expression bind, left to right. -/
def boundIdents : Expr → List Ident
  | lit _ | name _ | ref _ => []
  | call _ args => boundIdentsAll args
  | letIn bindings body => boundIdentsBindings bindings ++ boundIdents body
  | seq items => boundIdentsAll items
  | cond c t e => boundIdents c ++ boundIdents t ++ boundIdents e

/-- The identifiers that several expressions bind. -/
def boundIdentsAll : List Expr → List Ident
  | [] => []
  | e :: es => boundIdents e ++ boundIdentsAll es

/-- The identifiers that bindings introduce, those inside the values included. -/
def boundIdentsBindings : List (Binder × Expr) → List Ident
  | [] => []
  | (b, e) :: rest => boundIdents e ++ b.idents ++ boundIdentsBindings rest

end

theorem mem_refIdentsAll {i : Ident} {es : List Expr} :
    i ∈ refIdentsAll es ↔ ∃ e ∈ es, i ∈ e.refIdents := by
  induction es with
  | nil => simp [refIdentsAll]
  | cons e es ih => simp [refIdentsAll, ih]

theorem mem_boundIdentsAll {i : Ident} {es : List Expr} :
    i ∈ boundIdentsAll es ↔ ∃ e ∈ es, i ∈ e.boundIdents := by
  induction es with
  | nil => simp [boundIdentsAll]
  | cons e es ih => simp [boundIdentsAll, ih]

theorem mem_freeOccurrencesAll {n : String} {bound : List String} {es : List Expr} :
    n ∈ freeOccurrencesAll bound es ↔ ∃ e ∈ es, n ∈ e.freeOccurrences bound := by
  induction es with
  | nil => simp [freeOccurrencesAll]
  | cons e es ih => simp [freeOccurrencesAll, ih]

theorem freeOccurrences_letIn_cons (bound : List String) (b : Binder) (e : Expr)
    (rest : List (Binder × Expr)) (body : Expr) :
    (letIn ((b, e) :: rest) body).freeOccurrences bound
      = e.freeOccurrences bound ++ (letIn rest body).freeOccurrences (b.bindName bound) := by
  rw [freeOccurrences, freeOccurrencesBindings, List.append_assoc]
  rfl

/-! ## Counting references -/

mutual

/-- A count of references goes over what the expression reads. -/
theorem countRefs_eq_countP (i : Ident) : ∀ e : Expr, e.countRefs i = e.refIdents.countP (· == i)
  | lit _ | name _ => rfl
  | ref j => by rw [countRefs, refIdents, List.countP_singleton]
  | call _ args => countRefsAll_eq_countP i args
  | letIn bindings body => by
    rw [countRefs, refIdents, List.countP_append, countRefsBindings_eq_countP i bindings,
      countRefs_eq_countP i body]
  | seq items => countRefsAll_eq_countP i items
  | cond c t e => by
    rw [countRefs, refIdents, List.countP_append, List.countP_append, countRefs_eq_countP i c,
      countRefs_eq_countP i t, countRefs_eq_countP i e]

theorem countRefsAll_eq_countP (i : Ident) :
    ∀ es : List Expr, countRefsAll i es = (refIdentsAll es).countP (· == i)
  | [] => rfl
  | e :: es => by
    rw [countRefsAll, refIdentsAll, List.countP_append, countRefs_eq_countP i e,
      countRefsAll_eq_countP i es]

theorem countRefsBindings_eq_countP (i : Ident) :
    ∀ bs : List (Binder × Expr), countRefsBindings i bs = (refIdentsBindings bs).countP (· == i)
  | [] => rfl
  | (_, e) :: rest => by
    rw [countRefsBindings, refIdentsBindings, List.countP_append, countRefs_eq_countP i e,
      countRefsBindings_eq_countP i rest]

end

theorem countRefs_letIn_cons (i : Ident) (b : Binder) (e : Expr) (rest : List (Binder × Expr))
    (body : Expr) : (letIn ((b, e) :: rest) body).countRefs i
      = e.countRefs i + (letIn rest body).countRefs i := by
  rw [countRefs, countRefsBindings, countRefs, Nat.add_assoc]

theorem countRefs_pos_of_mem {e : Expr} {i : Ident} (h : i ∈ e.refIdents) : 0 < e.countRefs i := by
  rw [countRefs_eq_countP, List.countP_pos_iff]
  exact ⟨i, h, beq_self_eq_true i⟩

/-! ## Rewriting, member by member -/

theorem rewriteAll_eq_map (rewrites : Rewrites) (shadowed : List String) (es : List Expr) :
    rewriteAll rewrites shadowed es = es.map (rewrite rewrites shadowed) := by
  induction es with
  | nil => rfl
  | cons e es ih => rw [rewriteAll, ih, List.map_cons]

/-- A mention becomes a reference where the map has the name and nothing shadows it. -/
theorem rewrite_name (rewrites : Rewrites) (shadowed : List String) (n : String) :
    (name n).rewrite rewrites shadowed
      = ((if n ∈ shadowed then none else rewrites.get? n).map ref).getD (name n) := by
  rw [rewrite, rewriteName]
  by_cases hn : n ∈ shadowed
  · rw [if_pos hn]
    split
    next => exact if_pos (List.contains_iff_mem.mpr hn)
    next => rfl
  · rw [if_neg hn]
    cases rewrites.get? n with
    | none => rfl
    | some i => exact if_neg fun h => hn (List.contains_iff_mem.mp h)

/-- A rewritten `letIn` comes apart as the `letIn` it was: its first binding, and what rewriting the
`letIn` of the others behind that binder gives. -/
theorem rewrite_letIn_cons (rewrites : Rewrites) (shadowed : List String) (b : Binder) (e : Expr)
    (rest : List (Binder × Expr)) (body : Expr) :
    ∃ rest' body', (letIn rest body).rewrite rewrites (b.bindName shadowed) = letIn rest' body'
      ∧ (letIn ((b, e) :: rest) body).rewrite rewrites shadowed
        = letIn ((b, e.rewrite rewrites shadowed) :: rest') body' :=
  ⟨_, _, rfl, rfl⟩

/-- Where no free mention is of a name in the map, rewriting changes nothing. -/
theorem rewrite_eq_self {rewrites : Rewrites} (e : Expr) : ∀ {shadowed : List String},
    (∀ n ∈ e.freeOccurrences shadowed, rewrites.get? n = none) →
      e.rewrite rewrites shadowed = e := by
  induction e using inductPeel with
  | lit v => intro shadowed _; rfl
  | name n =>
    intro shadowed h
    rw [rewrite_name]
    by_cases hn : n ∈ shadowed
    · rw [if_pos hn]
      rfl
    · rw [if_neg hn, h n (by simp [freeOccurrences, hn])]
      rfl
  | ref i => intro shadowed _; rfl
  | call f args ih =>
    intro shadowed h
    have hsame : ∀ e ∈ args, e.rewrite rewrites shadowed = e :=
      fun e he => ih e he fun n hn => h n (mem_freeOccurrencesAll.mpr ⟨e, he, hn⟩)
    rw [rewrite, rewriteAll_eq_map, List.map_congr_left hsame, List.map_id']
  | letNil body ih => intro shadowed h; rw [rewrite, ih h]; rfl
  | letCons b e rest body ihe ih =>
    intro shadowed h
    simp only [freeOccurrences_letIn_cons, List.mem_append, or_imp, forall_and] at h
    obtain ⟨rest', body', hrest, hwhole⟩ := rewrite_letIn_cons rewrites shadowed b e rest body
    obtain ⟨rfl, rfl⟩ := Expr.letIn.inj (hrest.symm.trans (ih h.2))
    rw [hwhole, ihe h.1]
  | seq items ih =>
    intro shadowed h
    have hsame : ∀ e ∈ items, e.rewrite rewrites shadowed = e :=
      fun e he => ih e he fun n hn => h n (mem_freeOccurrencesAll.mpr ⟨e, he, hn⟩)
    rw [rewrite, rewriteAll_eq_map, List.map_congr_left hsame, List.map_id']
  | cond c t e ihc iht ihe =>
    intro shadowed h
    simp only [freeOccurrences, List.mem_append, or_imp, forall_and] at h
    rw [rewrite, ihc h.1.1, iht h.1.2, ihe h.2]

end Hygiene.Expr

/-! ## The walk that rewrites -/

namespace Hygiene.Binder

theorem suffix_bindName (bound : List String) (b : Binder) : bound <:+ b.bindName bound := by
  cases b with
  | name n => exact List.suffix_cons n bound
  | ident i => exact List.suffix_refl bound

theorem suffix_bindNames (bs : List Binder) :
    ∀ bound : List String, bound <:+ bindNames bound bs := by
  induction bs with
  | nil => exact List.suffix_refl
  | cons b bs ih =>
    intro bound
    exact (suffix_bindName bound b).trans (ih (b.bindName bound))

/-- A stack comes back at the end of a `letIn`, however many names its binders have put on it. -/
theorem drop_bindNames (bound : List String) (bs : List Binder) :
    (bindNames bound bs).drop ((bindNames bound bs).length - bound.length) = bound :=
  (List.suffix_iff_eq_drop.mp (suffix_bindNames bs bound)).symm

end Hygiene.Binder

namespace Hygiene.Expr

section Walk

variable {rewrites : Rewrites}

theorem walkRewriteAll_eq {es : List Expr} (h : ∀ e ∈ es, ∀ shadowed : List String,
      e.walkRewrite rewrites shadowed = (e.rewrite rewrites shadowed, shadowed)) :
    ∀ shadowed : List String,
      walkRewriteAll rewrites es shadowed = (rewriteAll rewrites shadowed es, shadowed) := by
  induction es with
  | nil => intro shadowed; rfl
  | cons e es ih =>
    intro shadowed
    have htail := ih fun e he => h e (List.mem_cons_of_mem _ he)
    simp only [walkRewriteAll, h e List.mem_cons_self, htail, rewriteAll]

theorem walkRewriteBindings_eq {bs : List (Binder × Expr)}
    (h : ∀ b ∈ bs, ∀ shadowed : List String,
      b.2.walkRewrite rewrites shadowed = (b.2.rewrite rewrites shadowed, shadowed)) :
    ∀ shadowed : List String, walkRewriteBindings rewrites bs shadowed
      = (rewriteBindings rewrites shadowed bs, Binder.bindNames shadowed (bs.map Prod.fst)) := by
  induction bs with
  | nil => intro shadowed; rfl
  | cons b bs ih =>
    intro shadowed
    obtain ⟨binder, e⟩ := b
    have htail := ih fun b hb => h b (List.mem_cons_of_mem _ hb)
    simp only [walkRewriteBindings, h (binder, e) List.mem_cons_self, htail, rewriteBindings]
    rfl

/-- **The walk rewrites what nothing around it shadows** and gives its stack back. -/
theorem walkRewrite_eq (rewrites : Rewrites) (e : Expr) : ∀ shadowed : List String,
    e.walkRewrite rewrites shadowed = (e.rewrite rewrites shadowed, shadowed) := by
  induction e with
  | lit v => intro shadowed; rfl
  | name n => intro shadowed; rfl
  | ref i => intro shadowed; rfl
  | call f args ih =>
    intro shadowed
    simp only [walkRewrite, walkRewriteAll_eq ih, rewrite]
  | letIn bindings body ihb ih =>
    intro shadowed
    -- behind the body the stack still has the names of all binders on it
    simp only [walkRewrite, walkRewriteBindings_eq ihb, ih, Binder.drop_bindNames, rewrite]
  | seq items ih =>
    intro shadowed
    simp only [walkRewrite, walkRewriteAll_eq ih, rewrite]
  | cond c t e ihc iht ihe =>
    intro shadowed
    simp only [walkRewrite, ihc, iht, ihe, rewrite]

end Walk

/-- The shortcut for an empty map is a shortcut only. -/
theorem substitute_eq_rewrite (e : Expr) (rewrites : Rewrites) :
    e.substitute rewrites = e.rewrite rewrites [] := by
  unfold substitute
  split
  next hempty =>
    refine (rewrite_eq_self e fun n _ => ?_).symm
    rw [OrderedMap.get?, List.isEmpty_iff.mp hempty, List.lookup_nil]
  next => rw [walkRewrite_eq]

end Hygiene.Expr
