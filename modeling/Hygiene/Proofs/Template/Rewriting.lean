import Hygiene.Proofs.Template.FreeNames

/-!
# What rewriting changes

Rewriting, counting references and looking for free names are three walks of their own, and each keeps
its own account of what the `letIn`s on the way have bound. They agree at every place: rewriting turns
exactly the free mentions of the names in the map into references and leaves everything else as it is.
So the free mentions lose those names and keep their order (`freeOccurrences_rewrite`), every identifier
gains one reference for each mention that points at it (`countRefs_rewrite`), and an expression stays
what it was only if there is no such mention (`get?_eq_none_of_beq_rewrite`, `rewrite_eq_self`):

> `Expr.substitute_changes_free`: what substituting does to free names, to counts and to equality.

A reference is never rewritten, so a second pass finds what the first one left, under the same shadows.
Two passes do what their maps do together, the first one having the say (`rewrite_rewrite_congr`):

> `Expr.substitute_composes`: substituting twice is substituting once.
-/

namespace Hygiene.Expr

/-! ## Free mentions -/

section FreeMentions

variable {rewrites : Rewrites}

theorem freeOccurrencesAll_rewriteAll {bound : List String} {es : List Expr}
    (h : ∀ e ∈ es, (e.rewrite rewrites bound).freeOccurrences bound
      = (e.freeOccurrences bound).filter fun n => !rewrites.contains n) :
    freeOccurrencesAll bound (rewriteAll rewrites bound es)
      = (freeOccurrencesAll bound es).filter fun n => !rewrites.contains n := by
  induction es with
  | nil => rfl
  | cons e es ih =>
    have htail := ih fun e he => h e (List.mem_cons_of_mem _ he)
    rw [rewriteAll, freeOccurrencesAll, freeOccurrencesAll, List.filter_append,
      h e List.mem_cons_self, htail]

/-- Rewriting takes the names of the map out of the free mentions. -/
theorem freeOccurrences_rewrite (rewrites : Rewrites) (e : Expr) : ∀ bound : List String,
    (e.rewrite rewrites bound).freeOccurrences bound
      = (e.freeOccurrences bound).filter fun n => !rewrites.contains n := by
  induction e using inductPeel with
  | lit v => intro bound; rfl
  | name n =>
    intro bound
    rw [rewrite_name]
    by_cases hn : n ∈ bound
    · simp [freeOccurrences, hn]
    · cases hget : rewrites.get? n <;>
        simp [freeOccurrences, hn, hget, ← OrderedMap.isSome_get?]
  | ref i => intro bound; rfl
  | call f args ih => intro bound; exact freeOccurrencesAll_rewriteAll fun e he => ih e he bound
  | letNil body ih => intro bound; exact ih bound
  | letCons b e rest body ihe ih =>
    intro bound
    obtain ⟨rest', body', hrest, hwhole⟩ := rewrite_letIn_cons rewrites bound b e rest body
    rw [hwhole, freeOccurrences_letIn_cons, freeOccurrences_letIn_cons, List.filter_append, ihe,
      ← hrest, ih]
  | seq items ih => intro bound; exact freeOccurrencesAll_rewriteAll fun e he => ih e he bound
  | cond c t e ihc iht ihe =>
    intro bound
    rw [rewrite, freeOccurrences, freeOccurrences, ihc, iht, ihe, List.filter_append,
      List.filter_append]

end FreeMentions

/-! ## References -/

section References

variable {rewrites : Rewrites} {i : Ident}

theorem countRefsAll_rewriteAll {shadowed : List String} {es : List Expr}
    (h : ∀ e ∈ es, (e.rewrite rewrites shadowed).countRefs i
      = e.countRefs i + (e.freeOccurrences shadowed).countP fun n => rewrites.get? n == some i) :
    countRefsAll i (rewriteAll rewrites shadowed es)
      = countRefsAll i es
        + (freeOccurrencesAll shadowed es).countP fun n => rewrites.get? n == some i := by
  induction es with
  | nil => rfl
  | cons e es ih =>
    have hhead := h e List.mem_cons_self
    have htail := ih fun e he => h e (List.mem_cons_of_mem _ he)
    rw [rewriteAll, countRefsAll, countRefsAll, freeOccurrencesAll, List.countP_append]
    omega

/-- An identifier gains one reference for every free mention of a name that points at it. -/
theorem countRefs_rewrite (rewrites : Rewrites) (i : Ident) (e : Expr) : ∀ shadowed : List String,
    (e.rewrite rewrites shadowed).countRefs i
      = e.countRefs i + (e.freeOccurrences shadowed).countP fun n => rewrites.get? n == some i := by
  induction e using inductPeel with
  | lit v => intro shadowed; rfl
  | name n =>
    intro shadowed
    rw [rewrite_name]
    by_cases hn : n ∈ shadowed
    · simp [freeOccurrences, countRefs, hn]
    · cases hget : rewrites.get? n <;> simp [freeOccurrences, countRefs, hn, hget]
  | ref j => intro shadowed; rfl
  | call f args ih => intro shadowed; exact countRefsAll_rewriteAll fun e he => ih e he shadowed
  | letNil body ih =>
    intro shadowed
    show 0 + (body.rewrite rewrites shadowed).countRefs i = 0 + body.countRefs i + _
    rw [Nat.zero_add, Nat.zero_add]
    exact ih shadowed
  | letCons b e rest body ihe ih =>
    intro shadowed
    obtain ⟨rest', body', hrest, hwhole⟩ := rewrite_letIn_cons rewrites shadowed b e rest body
    have hvalue := ihe shadowed
    have hothers := ih (b.bindName shadowed)
    rw [hrest] at hothers
    rw [hwhole, countRefs_letIn_cons, countRefs_letIn_cons, freeOccurrences_letIn_cons,
      List.countP_append]
    omega
  | seq items ih => intro shadowed; exact countRefsAll_rewriteAll fun e he => ih e he shadowed
  | cond c t e ihc iht ihe =>
    intro shadowed
    rw [rewrite, countRefs, countRefs, freeOccurrences, ihc, iht, ihe, List.countP_append,
      List.countP_append]
    omega

end References

/-! ## Equality -/

theorem beq_of_beqAll_map {f : Expr → Expr} {es : List Expr} (h : beqAll (es.map f) es = true) :
    ∀ e ∈ es, beq (f e) e = true := by
  induction es with
  | nil => intro e he; cases he
  | cons e es ih =>
    rw [List.map_cons, beqAll, Bool.and_eq_true] at h
    exact List.forall_mem_cons.mpr ⟨h.1, ih h.2⟩

theorem of_beq_letIn_cons {b b' : Binder} {e e' : Expr} {rest rest' : List (Binder × Expr)}
    {body body' : Expr} (h : beq (letIn ((b', e') :: rest') body') (letIn ((b, e) :: rest) body)
      = true) : beq e' e = true ∧ beq (letIn rest' body') (letIn rest body) = true := by
  simp only [beq, beqBindings, Bool.and_eq_true] at h ⊢
  exact ⟨h.1.1.2, h.1.2, h.2⟩

/-- Rewriting gives an equal expression only where no free mention is of a name in the map. -/
theorem get?_eq_none_of_beq_rewrite {rewrites : Rewrites} (e : Expr) :
    ∀ {shadowed : List String}, beq (e.rewrite rewrites shadowed) e = true →
      ∀ n ∈ e.freeOccurrences shadowed, rewrites.get? n = none := by
  induction e using inductPeel with
  | lit v => intro shadowed _ n hn; cases hn
  | name m =>
    intro shadowed h n hn
    rw [rewrite_name] at h
    rw [freeOccurrences] at hn
    by_cases hm : m ∈ shadowed
    · simp [hm] at hn
    · obtain rfl : n = m := by simpa [hm] using hn
      cases hget : rewrites.get? n with
      | none => rfl
      | some i =>
        -- a reference is no name
        rw [if_neg hm, hget] at h
        cases h
  | ref i => intro shadowed _ n hn; cases hn
  | call f args ih =>
    intro shadowed h n hn
    rw [rewrite, beq, rewriteAll_eq_map, Bool.and_eq_true] at h
    obtain ⟨e, he, hn⟩ := mem_freeOccurrencesAll.mp hn
    exact ih e he (beq_of_beqAll_map h.2 e he) n hn
  | letNil body ih => intro shadowed h; exact ih h
  | letCons b e rest body ihe ih =>
    intro shadowed h n hn
    obtain ⟨rest', body', hrest, hwhole⟩ := rewrite_letIn_cons rewrites shadowed b e rest body
    rw [hwhole] at h
    obtain ⟨hvalue, hothers⟩ := of_beq_letIn_cons h
    rw [freeOccurrences_letIn_cons] at hn
    rcases List.mem_append.mp hn with hn | hn
    · exact ihe hvalue n hn
    · exact ih (hrest ▸ hothers) n hn
  | seq items ih =>
    intro shadowed h n hn
    rw [rewrite, beq, rewriteAll_eq_map] at h
    obtain ⟨e, he, hn⟩ := mem_freeOccurrencesAll.mp hn
    exact ih e he (beq_of_beqAll_map h e he) n hn
  | cond c t e ihc iht ihe =>
    intro shadowed h n hn
    simp only [rewrite, beq, Bool.and_eq_true] at h
    simp only [freeOccurrences, List.mem_append] at hn
    rcases hn with (hn | hn) | hn
    · exact ihc h.1.1 n hn
    · exact iht h.1.2 n hn
    · exact ihe h.2 n hn

/-- **Substituting changes exactly the free mentions.** The free names lose the names of the map and
keep their order; an identifier gains one reference for every free mention of a name that points at it;
and the result equals the expression if and only if no name of the map is free in it. The mentions that
are counted here are those that the free names are taken from. -/
theorem substitute_changes_free (e : Expr) (rewrites : Rewrites) :
    (e.substitute rewrites).freeNames = e.freeNames.filter (fun n => !rewrites.contains n) ∧
      (∀ i, (e.substitute rewrites).countRefs i
        = e.countRefs i + (e.freeOccurrences []).countP fun n => rewrites.get? n == some i) ∧
      ((e.substitute rewrites == e) = true ↔ ∀ n ∈ e.freeNames, rewrites.contains n = false) ∧
      e.freeNames = firstAppearances (e.freeOccurrences []) := by
  have hnone : ∀ n, rewrites.contains n = false ↔ rewrites.get? n = none := by
    intro n
    rw [← OrderedMap.isSome_get?, Option.isSome_eq_false_iff, Option.isNone_iff_eq_none]
  simp only [mem_freeNames, hnone]
  rw [substitute_eq_rewrite]
  refine ⟨?_, fun i => countRefs_rewrite rewrites i e [], ⟨?_, ?_⟩, freeNames_eq e⟩
  · rw [freeNames_eq, freeNames_eq, freeOccurrences_rewrite, filter_firstAppearances]
  · exact get?_eq_none_of_beq_rewrite e
  · intro h
    rw [rewrite_eq_self e h]
    exact beq_self e

/-! ## Rewriting twice -/

theorem rewrite_rewrite_name (first second : Rewrites) (shadowed : List String) (n : String) :
    ((name n).rewrite first shadowed).rewrite second shadowed
      = ((if n ∈ shadowed then none else (first.get? n).or (second.get? n)).map ref).getD
          (name n) := by
  rw [rewrite_name]
  by_cases hn : n ∈ shadowed
  · simp [hn, rewrite_name]
  · cases hget : first.get? n with
    | none => simp [hn, rewrite_name]
    | some i => simp [hn, rewrite]

/-- Two passes depend on what their maps say together: on the first map's word where it has one, and
else on the second's. -/
theorem rewrite_rewrite_congr {first second first' second' : Rewrites}
    (h : ∀ n, (first.get? n).or (second.get? n) = (first'.get? n).or (second'.get? n)) (e : Expr) :
    ∀ shadowed : List String, (e.rewrite first shadowed).rewrite second shadowed
      = (e.rewrite first' shadowed).rewrite second' shadowed := by
  induction e using inductPeel with
  | lit v => intro shadowed; rfl
  | name n => intro shadowed; rw [rewrite_rewrite_name, rewrite_rewrite_name, h n]
  | ref i => intro shadowed; rfl
  | call f args ih =>
    intro shadowed
    simp only [rewrite, rewriteAll_eq_map, List.map_map]
    exact congrArg (call f) (List.map_congr_left fun e he => ih e he shadowed)
  | letNil body ih => intro shadowed; exact congrArg (letIn []) (ih shadowed)
  | letCons b e rest body ihe ih =>
    intro shadowed
    -- each of the four passes takes the first binding off, and the two on either side meet behind it
    obtain ⟨r₁, b₁, hrest₁, hwhole₁⟩ := rewrite_letIn_cons first shadowed b e rest body
    obtain ⟨r₂, b₂, hrest₂, hwhole₂⟩ := rewrite_letIn_cons second shadowed b
      (e.rewrite first shadowed) r₁ b₁
    obtain ⟨r₁', b₁', hrest₁', hwhole₁'⟩ := rewrite_letIn_cons first' shadowed b e rest body
    obtain ⟨r₂', b₂', hrest₂', hwhole₂'⟩ := rewrite_letIn_cons second' shadowed b
      (e.rewrite first' shadowed) r₁' b₁'
    have hothers := ih (b.bindName shadowed)
    rw [hrest₁, hrest₂, hrest₁', hrest₂'] at hothers
    obtain ⟨rfl, rfl⟩ := Expr.letIn.inj hothers
    rw [hwhole₁, hwhole₂, hwhole₁', hwhole₂', ihe]
  | seq items ih =>
    intro shadowed
    simp only [rewrite, rewriteAll_eq_map, List.map_map]
    exact congrArg seq (List.map_congr_left fun e he => ih e he shadowed)
  | cond c t e ihc iht ihe =>
    intro shadowed
    simp only [rewrite]
    rw [ihc, iht, ihe]

/-- **Successive rewrites compose.** Substituting twice is substituting once, by any map that gives a
name what the first map gives it and, where that has nothing, what the second gives it. So a second
substitution by the same map changes nothing, and two whose maps share no name may change places. The
early return for an empty map is no exception: every substitution is the full walk, which is back at an
empty stack at its end. -/
theorem substitute_composes (e : Expr) (first second : Rewrites) :
    (∀ both : Rewrites, (∀ n, both.get? n = (first.get? n).or (second.get? n)) →
        (e.substitute first).substitute second = e.substitute both) ∧
      (e.substitute first).substitute first = e.substitute first ∧
      ((∀ n, first.contains n = true → second.contains n = false) →
        (e.substitute first).substitute second = (e.substitute second).substitute first) ∧
      e.substitute first = e.rewrite first [] ∧
      e.walkRewrite first [] = (e.substitute first, []) := by
  simp only [substitute_eq_rewrite, walkRewrite_eq, and_true]
  -- one pass is two passes, the second of them with nothing to rewrite
  have hpass : ∀ rewrites : Rewrites, (e.rewrite rewrites []).rewrite {} [] = e.rewrite rewrites [] :=
    fun rewrites => rewrite_eq_self _ fun _ _ => rfl
  refine ⟨fun both hboth => ?_, ?_, fun hdisjoint => ?_⟩
  · rw [← hpass both]
    refine rewrite_rewrite_congr (fun n => ?_) e []
    rw [hboth n]
    exact Option.or_none.symm
  · refine Eq.trans (rewrite_rewrite_congr (fun n => ?_) e []) (hpass first)
    rw [Option.or_self]
    exact Option.or_none.symm
  · refine rewrite_rewrite_congr (fun n => ?_) e []
    cases hfirst : first.get? n with
    | none => rw [Option.none_or, Option.or_none]
    | some i =>
      have hsecond := hdisjoint n (by rw [← OrderedMap.isSome_get?, hfirst]; rfl)
      rw [← OrderedMap.isSome_get?, Option.isSome_eq_false_iff, Option.isNone_iff_eq_none] at hsecond
      rw [hsecond, Option.none_or, Option.or_none]

/-- Both maps have `x`, which the first one decides, and the `letIn` in between shadows it for one of
its mentions. The first map and one that has only `y` may change places. -/
theorem substitute_composes_overlapping :
    let i : Ident := ⟨0, "x"⟩
    let j : Ident := ⟨1, "x"⟩
    let k : Ident := ⟨2, "y"⟩
    let first : Rewrites := ⟨[("x", i)]⟩
    let second : Rewrites := ⟨[("y", k), ("x", j)]⟩
    let both : Rewrites := ⟨[("x", i), ("y", k)]⟩
    let apart : Rewrites := ⟨[("y", k)]⟩
    let e : Expr := .letIn [(.name "x", .call "f" [.name "x", .name "y"])]
      (.call "f" [.name "x", .name "y"])
    let result : Expr := .letIn [(.name "x", .call "f" [.ref i, .ref k])]
      (.call "f" [.name "x", .ref k])
    (∀ n, both.get? n = (first.get? n).or (second.get? n)) ∧
      (e.substitute first).substitute second = e.substitute both ∧ e.substitute both = result ∧
      (∀ n, first.contains n = true → apart.contains n = false) ∧
      (e.substitute first).substitute apart = (e.substitute apart).substitute first ∧
      (e.substitute first).substitute apart = result := by
  intro i j k first second both apart e result
  have hboth : ∀ n, both.get? n = (first.get? n).or (second.get? n) := by
    intro n
    unfold both first second OrderedMap.get?
    simp only [List.lookup_cons, List.lookup_nil]
    cases n == "x" <;> cases n == "y" <;> rfl
  have hdisjoint : ∀ n, first.contains n = true → apart.contains n = false := by
    simp [first, apart, OrderedMap.contains]
  exact ⟨hboth, (substitute_composes e first second).1 both hboth, rfl, hdisjoint,
    (substitute_composes e first apart).2.2.1 hdisjoint, rfl⟩

end Hygiene.Expr
