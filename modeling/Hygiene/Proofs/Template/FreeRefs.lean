import Hygiene.Proofs.Template.OnceOnly
import Hygiene.Proofs.Template.Provenance

/-!
# References that nothing binds

A reference is free where no enclosing `letIn` has bound its identifier before, just as a name is.
`Expr.freeRefs` lists the free references from left to right. An expansion has none to the
identifiers of its own set (`BindingSet.id_ne_of_mem_freeRefs_wrap`): the listed expressions are
older than these, and the body stands under all of them.
-/

namespace Hygiene

namespace Expr

mutual

/-- Every reference to an identifier that neither `hidden` nor a `letIn` around it has bound before,
left to right. -/
def freeRefs (hidden : List Ident) : Expr → List Ident
  | lit _ | name _ => []
  | ref i => if hidden.contains i then [] else [i]
  | call _ args => freeRefsAll hidden args
  | letIn bindings body =>
    freeRefsBindings hidden bindings
      ++ freeRefs (Binder.bindIdents hidden (bindings.map Prod.fst)) body
  | seq items => freeRefsAll hidden items
  | cond c t e => freeRefs hidden c ++ freeRefs hidden t ++ freeRefs hidden e

def freeRefsAll (hidden : List Ident) : List Expr → List Ident
  | [] => []
  | e :: es => freeRefs hidden e ++ freeRefsAll hidden es

/-- The free references in the values of bindings, each under the binders before it. -/
def freeRefsBindings (hidden : List Ident) : List (Binder × Expr) → List Ident
  | [] => []
  | (b, e) :: rest => freeRefs hidden e ++ freeRefsBindings (b.bindIdent hidden) rest

end

theorem mem_freeRefsAll {i : Ident} {hidden : List Ident} {es : List Expr} :
    i ∈ freeRefsAll hidden es ↔ ∃ e ∈ es, i ∈ e.freeRefs hidden := by
  induction es with
  | nil => simp [freeRefsAll]
  | cons e es ih => simp [freeRefsAll, ih]

theorem freeRefs_letIn_cons (hidden : List Ident) (b : Binder) (e : Expr)
    (rest : List (Binder × Expr)) (body : Expr) :
    (letIn ((b, e) :: rest) body).freeRefs hidden
      = e.freeRefs hidden ++ (letIn rest body).freeRefs (b.bindIdent hidden) := by
  rw [freeRefs, freeRefsBindings, List.append_assoc]
  rfl

/-- A free reference is a reference, and to none of the identifiers that are bound already. -/
theorem of_mem_freeRefs {i : Ident} (e : Expr) : ∀ {hidden : List Ident}, i ∈ e.freeRefs hidden →
    i ∈ e.refIdents ∧ hidden.contains i = false := by
  induction e using inductPeel with
  | lit v => intro hidden h; cases h
  | name n => intro hidden h; cases h
  | ref j =>
    intro hidden h
    rw [freeRefs] at h
    cases hj : hidden.contains j with
    | true => rw [if_pos hj] at h; cases h
    | false =>
      rw [if_neg (by simp [hj])] at h
      obtain rfl := List.mem_singleton.mp h
      exact ⟨h, hj⟩
  | call f args ih =>
    intro hidden h
    obtain ⟨e, he, h⟩ := mem_freeRefsAll.mp h
    obtain ⟨hmem, hnot⟩ := ih e he h
    exact ⟨mem_refIdentsAll.mpr ⟨e, he, hmem⟩, hnot⟩
  | letNil body ih => intro hidden h; exact ih h
  | letCons b e rest body ihe ih =>
    intro hidden h
    rw [refIdents, refIdentsBindings, List.append_assoc]
    rw [freeRefs_letIn_cons] at h
    rcases List.mem_append.mp h with h | h
    · obtain ⟨hmem, hnot⟩ := ihe h
      exact ⟨List.mem_append_left _ hmem, hnot⟩
    · obtain ⟨hmem, hnot⟩ := ih h
      refine ⟨List.mem_append_right _ hmem, ?_⟩
      cases b with
      | name n => exact hnot
      | ident j => exact (Bool.or_eq_false_iff.mp hnot).2
  | seq items ih =>
    intro hidden h
    obtain ⟨e, he, h⟩ := mem_freeRefsAll.mp h
    obtain ⟨hmem, hnot⟩ := ih e he h
    exact ⟨mem_refIdentsAll.mpr ⟨e, he, hmem⟩, hnot⟩
  | cond c t e ihc iht ihe =>
    intro hidden h
    simp only [freeRefs, refIdents, List.mem_append] at h ⊢
    rcases h with (h | h) | h
    · exact ⟨Or.inl (Or.inl (ihc h).1), (ihc h).2⟩
    · exact ⟨Or.inl (Or.inr (iht h).1), (iht h).2⟩
    · exact ⟨Or.inr (ihe h).1, (ihe h).2⟩

end Expr

/-! ## Free references of an expansion -/

/-- Under a `letIn` of identifiers nothing refers freely to one of them but the values. -/
theorem Expr.of_mem_freeRefs_letIn_staged {i : Ident} {body : Expr} (staged : List Staged) :
    ∀ {hidden : List Ident},
      i ∈ (Expr.letIn (staged.map fun s => (.ident s.binding, s.form)) body).freeRefs hidden →
      (∃ s ∈ staged, i ∈ s.form.refIdents) ∨ ∀ s ∈ staged, i.id ≠ s.binding.id := by
  induction staged with
  | nil => intro hidden _; exact Or.inr fun _ h => (nomatch h)
  | cons s rest ih =>
    intro hidden h
    rw [List.map_cons, freeRefs_letIn_cons] at h
    rcases List.mem_append.mp h with h | h
    · exact Or.inl ⟨s, List.mem_cons_self, (of_mem_freeRefs s.form h).1⟩
    · -- whatever is free behind the first binder does not refer to it
      have hnot := (of_mem_freeRefs _ h).2
      have hne : i.id ≠ s.binding.id :=
        Ident.beq_eq_false_iff.mp (Bool.or_eq_false_iff.mp hnot).1
      rcases ih h with ⟨r, hr, hi⟩ | hrest
      · exact Or.inl ⟨r, List.mem_cons_of_mem s hr, hi⟩
      · exact Or.inr (List.forall_mem_cons.mpr ⟨hne, hrest⟩)

/-- An expansion refers freely to none of the identifiers drawn for it: what is older cannot, and the
body stands under all of them. -/
theorem BindingSet.id_ne_of_mem_freeRefs_wrap {bindings : List (String × Expr)} {body : Expr}
    {supply supply' : Supply} {set : BindingSet}
    (hroom : supply.next.toNat + 2 * bindings.length ≤ 2 ^ 64)
    (hforms : ∀ b ∈ bindings, supply.Precedes b.2)
    (hset : BindingSet.ofList bindings supply = (.ok set, supply')) {name : String} {i j : Ident}
    (hi : set.binding? name = some i) (hj : j ∈ (set.wrap body).freeRefs []) : j.id ≠ i.id := by
  let ps := BindingSet.drawn supply.next.toNat bindings
  have hvalues : set.staged.values = ps.map BindingSet.Pairing.staged := by
    have hnames := BindingSet.nodup_of_ofList_ok hset
    rw [BindingSet.ofList_paired hnames (by omega)] at hset
    rw [← Except.ok.inj (congrArg Prod.fst hset), BindingSet.values_staged_paired]
  obtain ⟨s, hs, rfl⟩ := BindingSet.mem_of_binding? hi
  rw [hvalues] at hs
  obtain ⟨p, hp, rfl⟩ := List.mem_map.mp hs
  rw [BindingSet.wrap, BindingSet.emit, hvalues] at hj
  rcases Expr.of_mem_freeRefs_letIn_staged _ hj with ⟨r, hr, hread⟩ | hnone
  · -- an expression listed is older than the draw
    obtain ⟨q, hq, rfl⟩ := List.mem_map.mp hr
    obtain ⟨b, hb, hform⟩ := BindingSet.exists_form_of_mem_drawn hq
    have hold : j.id < supply.next := hforms b hb j (List.mem_append_left _ (hform ▸ hread))
    exact BindingSet.id_ne_of_mem_drawn hroom hp hold
  · exact hnone p.staged (List.mem_map_of_mem hp)

end Hygiene
