import Hygiene.Proofs.Layout.Form
import Mathlib.Data.Finset.Card
import Mathlib.Data.Finset.Dedup

/-!
# The order in which identifiers get their numbers

Under canonical numbering identifiers are counted as they come into the printer's table. A table that
identifiers have come into one after another (`Numbers.after`) has each of them once, in the order in
which they came first, so

> `Numbers.number_after`: the number of an identifier is one more than there are different ones that
> came before it first did.

The printer's table is such a table, filled in the order of the text (`Expr.shownIdents`): `Expr.snd_form`.
-/

namespace Hygiene

/-! ## Tables filled one identifier after another -/

namespace Numbers

/-- The table after showing identifiers in order. -/
def after (numbers : Numbers) (ids : List UInt64) : Numbers :=
  ids.foldl (fun numbers id => (numbers.number id).2) numbers

/-- An identifier with the number that it is shown with. -/
def mark (numbers : Numbers) (i : Ident) : Ident × Nat := (i, (numbers.number i.id).1)

theorem after_append (numbers : Numbers) (ids ids' : List UInt64) :
    numbers.after (ids ++ ids') = (numbers.after ids).after ids' := List.foldl_append

theorem after_cons (numbers : Numbers) (id : UInt64) (ids : List UInt64) :
    numbers.after (id :: ids) = ((numbers.number id).2).after ids := rfl

theorem number_of_mem {numbers : Numbers} {id : UInt64} (h : id ∈ numbers.seen) :
    numbers.number id = (numbers.seen.idxOf id + 1, numbers) :=
  number_of_idxOf? (List.findIdx?_eq_some_iff_findIdx_eq.mpr ⟨List.idxOf_lt_length_of_mem h, rfl⟩)

/-- Identifiers that have their numbers change nothing. -/
theorem after_of_known {numbers : Numbers} {is : List Ident}
    (h : ∀ i ∈ is, i.id ∈ numbers.seen) : numbers.after (is.map Ident.id) = numbers := by
  induction is with
  | nil => rfl
  | cons i is ih =>
    rw [List.map_cons, after_cons, number_of_mem (h i List.mem_cons_self)]
    exact ih fun i hi => h i (List.mem_cons_of_mem _ hi)

theorem extends_after (numbers : Numbers) (ids : List UInt64) :
    (numbers.after ids).Extends numbers := by
  induction ids generalizing numbers with
  | nil => exact Extends.refl numbers
  | cons id ids ih => exact (ih _).trans ((settles_number id).grows numbers)

theorem mem_seen_number {numbers : Numbers} {id other : UInt64} :
    other ∈ (numbers.number id).2.seen ↔ other ∈ numbers.seen ∨ other = id := by
  by_cases hid : id ∈ numbers.seen
  · rw [number_of_mem hid]
    constructor
    · exact Or.inl
    · rintro (hmem | rfl)
      · exact hmem
      · exact hid
  · rw [number_of_not_mem hid, List.mem_append, List.mem_singleton]

theorem mem_seen_after {numbers : Numbers} {ids : List UInt64} {id : UInt64} :
    id ∈ (numbers.after ids).seen ↔ id ∈ numbers.seen ∨ id ∈ ids := by
  induction ids generalizing numbers with
  | nil => simp [after]
  | cons first ids ih => rw [after_cons, ih, mem_seen_number, List.mem_cons, or_assoc]

/-- No identifier comes into a table twice. -/
theorem nodup_seen_after {numbers : Numbers} (h : numbers.seen.Nodup) (ids : List UInt64) :
    (numbers.after ids).seen.Nodup := by
  induction ids generalizing numbers with
  | nil => exact h
  | cons id ids ih =>
    rw [after_cons]
    refine ih ?_
    by_cases hid : id ∈ numbers.seen
    · rwa [number_of_mem hid]
    · rw [number_of_not_mem hid]
      rw [← List.concat_eq_append]
      exact h.concat hid

/-- The table that starts empty and is filled with identifiers in order has each of them once. -/
theorem toFinset_seen_after (ids : List UInt64) :
    (after {} ids).seen.toFinset = ids.toFinset := by
  ext id
  rw [List.mem_toFinset, List.mem_toFinset, mem_seen_after]
  simp

theorem length_seen_after (ids : List UInt64) :
    (after {} ids).seen.length = ids.toFinset.card := by
  rw [← toFinset_seen_after, List.toFinset_card_of_nodup (nodup_seen_after List.nodup_nil ids)]

/-- **A number counts first appearances**: the different identifiers that appeared before this one
appeared first, and one for itself. -/
theorem number_after {ids : List UInt64} {id : UInt64} (h : id ∈ ids) :
    ((after {} ids).number id).1
      = 1 + (ids.toFinset.filter fun other => ids.idxOf other < ids.idxOf id).card := by
  obtain ⟨before, behind, hids, hnew⟩ := List.eq_append_cons_of_mem h
  -- the number was given when the identifier came, to a table that had those before it
  have hunseen : id ∉ (after {} before).seen := by
    rw [mem_seen_after]
    simpa using hnew
  have hlater : (after {} ids).Extends ((after {} before).number id).2 := by
    rw [hids, after_append, after_cons]
    exact extends_after _ behind
  have hnumber : ((after {} ids).number id).1 = before.toFinset.card + 1 := by
    rw [(settles_number id).known _ _ hlater, number_of_not_mem hunseen, length_seen_after]
  have hplace : ids.idxOf id = before.length := by
    rw [hids, List.idxOf_append_of_notMem hnew, List.idxOf_cons_self, Nat.add_zero]
  have hbefore : (ids.toFinset.filter fun other => ids.idxOf other < ids.idxOf id)
      = before.toFinset := by
    ext other
    rw [Finset.mem_filter, List.mem_toFinset, List.mem_toFinset, hplace]
    constructor
    · rintro ⟨hmem, hlt⟩
      have htake := (List.mem_take_iff_idxOf_lt hmem).mpr hlt
      rwa [hids, List.take_left] at htake
    · intro hmem
      have hall : other ∈ ids := by
        rw [hids]
        exact List.mem_append_left _ hmem
      refine ⟨hall, (List.mem_take_iff_idxOf_lt hall).mp ?_⟩
      rwa [hids, List.take_left]
  rw [hnumber, hbefore, Nat.add_comm]

/-- Different identifiers have different numbers. -/
theorem number_inj {numbers : Numbers} {id other : UInt64} (h : id ∈ numbers.seen)
    (h' : other ∈ numbers.seen) :
    (numbers.number id).1 = (numbers.number other).1 ↔ id = other := by
  rw [number_of_mem h, number_of_mem h', Nat.add_right_cancel_iff]
  exact List.idxOf_inj h

/-- The numbers run from 1 without a gap. -/
theorem exists_number_eq {ids : List UInt64} {m : Nat} :
    (∃ id ∈ ids, ((after {} ids).number id).1 = m) ↔ 1 ≤ m ∧ m ≤ ids.toFinset.card := by
  have hmem : ∀ id, id ∈ (after {} ids).seen ↔ id ∈ ids := by
    intro id
    rw [mem_seen_after]
    simp
  rw [← length_seen_after]
  constructor
  · rintro ⟨id, hid, rfl⟩
    have hseen := (hmem id).mpr hid
    rw [number_of_mem hseen]
    exact ⟨Nat.le_add_left 1 _, List.idxOf_lt_length_of_mem hseen⟩
  · rintro ⟨hpos, hle⟩
    have hlt : m - 1 < (after {} ids).seen.length := by omega
    have hseen := List.getElem_mem hlt
    refine ⟨_, (hmem _).mp hseen, ?_⟩
    rw [number_of_mem hseen, (nodup_seen_after List.nodup_nil ids).idxOf_getElem]
    exact Nat.sub_add_cancel hpos

end Numbers

/-! ## Identifiers in the order of the text -/

namespace Expr

mutual

/-- The identifiers that are shown for an expression, references and binders, in the order of the
text. -/
def shownIdents : Expr → List Ident
  | lit _ | name _ => []
  | ref i => [i]
  | call _ args => shownIdentsAll args
  | letIn bindings body => shownIdentsBindings bindings ++ shownIdents body
  | seq items => shownIdentsAll items
  | cond c t e => shownIdents c ++ shownIdents t ++ shownIdents e

/-- Those of several expressions. -/
def shownIdentsAll : List Expr → List Ident
  | [] => []
  | e :: es => shownIdents e ++ shownIdentsAll es

/-- Those of bindings, each binder in front of its value. -/
def shownIdentsBindings : List (Binder × Expr) → List Ident
  | [] => []
  | (b, e) :: rest => b.idents ++ shownIdents e ++ shownIdentsBindings rest

end

theorem snd_forms {es : List Expr}
    (h : ∀ e ∈ es, ∀ numbers, (e.form .canonical numbers).2
      = numbers.after (e.shownIdents.map Ident.id)) :
    ∀ numbers, (forms .canonical es numbers).2
      = numbers.after ((shownIdentsAll es).map Ident.id) := by
  induction es with
  | nil => intro numbers; rfl
  | cons e es ih =>
    intro numbers
    have hrest := ih fun e he => h e (List.mem_cons_of_mem _ he)
    rw [forms, shownIdentsAll, List.map_append, Numbers.after_append, ← h e List.mem_cons_self]
    exact hrest _

theorem snd_label (b : Binder) (numbers : Numbers) :
    (b.label .canonical numbers).2 = numbers.after (b.idents.map Ident.id) := by
  cases b <;> rfl

theorem snd_formsBindings {bs : List (Binder × Expr)}
    (h : ∀ b ∈ bs, ∀ numbers, (b.2.form .canonical numbers).2
      = numbers.after (b.2.shownIdents.map Ident.id)) :
    ∀ numbers, (formsBindings .canonical bs numbers).2
      = numbers.after ((shownIdentsBindings bs).map Ident.id) := by
  induction bs with
  | nil => intro numbers; rfl
  | cons b bs ih =>
    intro numbers
    have hrest := ih fun b hb => h b (List.mem_cons_of_mem _ hb)
    rw [formsBindings, shownIdentsBindings, List.map_append, List.map_append, Numbers.after_append,
      Numbers.after_append, ← snd_label, ← h b List.mem_cons_self]
    exact hrest _

/-- **Identifiers come into the table in the order of the text.** -/
theorem snd_form (e : Expr) : ∀ numbers, (e.form .canonical numbers).2
    = numbers.after (e.shownIdents.map Ident.id) := by
  induction e with
  | lit v => intro numbers; rfl
  | name n => intro numbers; rfl
  | ref i => intro numbers; rfl
  | call f args ih => intro numbers; exact snd_forms ih numbers
  | letIn bindings body ihb ih =>
    intro numbers
    rw [shownIdents, List.map_append, Numbers.after_append, ← snd_formsBindings ihb]
    exact ih _
  | seq items ih => intro numbers; exact snd_forms ih numbers
  | cond c t e ihc iht ihe =>
    intro numbers
    rw [shownIdents, List.map_append, List.map_append, Numbers.after_append, Numbers.after_append,
      ← ihc, ← iht]
    exact ihe _

end Expr

end Hygiene
