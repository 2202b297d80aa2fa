import Hygiene.Proofs.Layout.Form
import Hygiene.Proofs.Template.Renumbering

/-!
# Canonical numbers under other numbers

Under canonical numbering an identifier is shown with its place in the table of those seen so far.
The table holds the numbers that identifiers were drawn with, but nothing else about them is ever
asked than whether two are the same. So when every number is replaced by another one and no two fall
together, the table is replaced number by number and the text stays what it is. `Numbers.Mirrors`
says so for a pass of the printer, and

> `Expr.render_renumber`: the text of an expression under canonical numbering, in any layout, is the
> text of the expression under other numbers.
-/

namespace Hygiene

namespace Numbers

/-- The table with other numbers in their places. -/
def renumber (f : UInt64 → UInt64) (numbers : Numbers) : Numbers := ⟨numbers.seen.map f⟩

/-- Every number in the table has the property. -/
def Within (S : UInt64 → Prop) (numbers : Numbers) : Prop := ∀ id ∈ numbers.seen, S id

/-- Two passes that do the same, the one on a table of numbers in `S`, the other on its copy under
other numbers. -/
structure Mirrors {α : Type} (S : UInt64 → Prop) (f : UInt64 → UInt64)
    (copy pass : Numbers → α × Numbers) : Prop where
  stays : ∀ numbers : Numbers, numbers.Within S → (pass numbers).2.Within S
  same : ∀ numbers : Numbers, numbers.Within S →
    copy (numbers.renumber f) = ((pass numbers).1, (pass numbers).2.renumber f)

variable {S : UInt64 → Prop} {f : UInt64 → UInt64}

namespace Mirrors

variable {α β : Type} {copy pass : Numbers → α × Numbers}

theorem const (a : α) : Mirrors S f (fun numbers => (a, numbers)) fun numbers => (a, numbers) :=
  ⟨fun _ h => h, fun _ _ => rfl⟩

/-- One pass after another, on the tables that the first ones hand on. -/
theorem andThen (h : Mirrors S f copy pass) {nextCopy next : α → Numbers → β × Numbers}
    (hnext : ∀ a, Mirrors S f (nextCopy a) (next a)) :
    Mirrors S f (fun numbers => nextCopy (copy numbers).1 (copy numbers).2)
      fun numbers => next (pass numbers).1 (pass numbers).2 := by
  constructor
  · intro numbers hnumbers
    exact (hnext _).stays _ (h.stays numbers hnumbers)
  · intro numbers hnumbers
    show nextCopy (copy (numbers.renumber f)).1 (copy (numbers.renumber f)).2 = _
    rw [h.same numbers hnumbers]
    exact (hnext _).same _ (h.stays numbers hnumbers)

end Mirrors

/-- A number that falls together with no other keeps its place in the table. -/
theorem idxOf?_renumber {id : UInt64} {seen : List UInt64} (h : ∀ x ∈ seen, f x = f id → x = id) :
    (seen.map f).idxOf? (f id) = seen.idxOf? id := by
  induction seen with
  | nil => rfl
  | cons x rest ih =>
    have hrest := ih fun y hy => h y (List.mem_cons_of_mem x hy)
    have hx : (f x == f id) = (x == id) := by
      by_cases hxid : x = id
      · rw [hxid, beq_self_eq_true, beq_self_eq_true]
      · have hne : f x ≠ f id := fun heq => hxid (h x List.mem_cons_self heq)
        rw [beq_eq_false_iff_ne.mpr hxid, beq_eq_false_iff_ne.mpr hne]
    rw [List.map_cons, List.idxOf?_cons, List.idxOf?_cons, hx, hrest]

theorem mirrors_number (hinj : ∀ a b, S a → S b → f a = f b → a = b) {id : UInt64} (hid : S id) :
    Mirrors S f (fun numbers => numbers.number (f id)) fun numbers => numbers.number id := by
  constructor
  · intro numbers hnumbers x hx
    cases hplace : numbers.seen.idxOf? id with
    | some place =>
      rw [number_of_idxOf? hplace] at hx
      exact hnumbers x hx
    | none =>
      rw [number_of_not_mem (List.idxOf?_eq_none_iff.mp hplace)] at hx
      rcases List.mem_append.mp hx with hx | hx
      · exact hnumbers x hx
      · rw [List.mem_singleton.mp hx]
        exact hid
  · intro numbers hnumbers
    have hsame : (numbers.seen.map f).idxOf? (f id) = numbers.seen.idxOf? id :=
      idxOf?_renumber fun x hx heq => hinj x id (hnumbers x hx) hid heq
    -- known on both sides at one place, or new on both sides behind as many others
    unfold number renumber
    rw [hsame]
    cases numbers.seen.idxOf? id with
    | some place => rfl
    | none => simp only [List.length_map, List.map_append, List.map_cons, List.map_nil]

end Numbers

section Printing

variable {S : UInt64 → Prop} {f : UInt64 → UInt64}
  (hinj : ∀ a b, S a → S b → f a = f b → a = b)

include hinj

theorem Numbering.mirrors_label {i : Ident} (hi : S i.id) :
    Numbers.Mirrors S f (canonical.label (i.renumber f)) (canonical.label i) :=
  -- the hint is the same, and so is what is shown with one and the same number
  (Numbers.mirrors_number hinj hi).andThen fun n => .const (i.labelled n)

theorem Binder.mirrors_label {b : Binder} (hb : ∀ i ∈ b.idents, S i.id) :
    Numbers.Mirrors S f (fun numbers => (b.renumber f).label .canonical numbers)
      fun numbers => b.label .canonical numbers := by
  cases b with
  | name n => exact .const n
  | ident i => exact Numbering.mirrors_label hinj (hb i List.mem_cons_self)

namespace Expr

omit hinj in
theorem mirrors_forms {es : List Expr}
    (h : ∀ e ∈ es, Numbers.Mirrors S f ((e.renumber f).form .canonical) (e.form .canonical)) :
    Numbers.Mirrors S f (forms .canonical (renumberAll f es)) (forms .canonical es) := by
  induction es with
  | nil => exact .const _
  | cons e es ih =>
    have hrest := ih fun e he => h e (List.mem_cons_of_mem _ he)
    exact (h e List.mem_cons_self).andThen fun first => hrest.andThen fun others =>
      .const (first :: others)

theorem mirrors_formsBindings {bs : List (Binder × Expr)}
    (hbinders : ∀ b ∈ bs, ∀ i ∈ b.1.idents, S i.id)
    (h : ∀ b ∈ bs, Numbers.Mirrors S f ((b.2.renumber f).form .canonical) (b.2.form .canonical)) :
    Numbers.Mirrors S f (formsBindings .canonical (renumberBindings f bs))
      (formsBindings .canonical bs) := by
  induction bs with
  | nil => exact .const _
  | cons b bs ih =>
    have hrest := ih (fun b hb => hbinders b (List.mem_cons_of_mem _ hb))
      fun b hb => h b (List.mem_cons_of_mem _ hb)
    exact (Binder.mirrors_label hinj (hbinders b List.mem_cons_self)).andThen fun binder =>
      (h b List.mem_cons_self).andThen fun value => hrest.andThen fun others =>
        .const ((binder, value) :: others)

/-- **Other numbers, the same form.** -/
theorem mirrors_form {e : Expr} (h : e.Within fun i => S i.id) :
    Numbers.Mirrors S f ((e.renumber f).form .canonical) (e.form .canonical) := by
  induction e with
  | lit v => exact .const _
  | name n => exact .const _
  | ref i =>
    exact (Numbering.mirrors_label hinj (within_ref.mp h)).andThen fun text => .const (Form.atom text)
  | call g args ih =>
    exact (mirrors_forms fun e he => ih e he (within_call.mp h e he)).andThen fun args =>
      .const (Form.call g args)
  | letIn bindings body ihb ih =>
    obtain ⟨hbindings, hbody⟩ := within_letIn.mp h
    exact (mirrors_formsBindings hinj (fun b hb => (hbindings b hb).1)
      fun b hb => ihb b hb (hbindings b hb).2).andThen fun bindings =>
        (ih hbody).andThen fun body => .const (Form.letIn bindings body)
  | seq items ih =>
    exact (mirrors_forms fun e he => ih e he (within_seq.mp h e he)).andThen fun items =>
      .const (Form.call "do" items)
  | cond c t e ihc iht ihe =>
    obtain ⟨hc, ht, he⟩ := within_cond.mp h
    exact (ihc hc).andThen fun c => (iht ht).andThen fun t => (ihe he).andThen fun e =>
      .const (Form.call "if" [c, t, e])

/-- **Other numbers, the same text.** Under canonical numbering, whatever the width and the
indentation, only which identifiers are the same shows. -/
theorem render_renumber {e : Expr} (h : e.Within fun i => S i.id) {layout : Layout}
    (hcanonical : layout.numbering = .canonical) :
    (e.renumber f).render layout = e.render layout := by
  have hform : (e.renumber f).form .canonical {}
      = ((e.form .canonical {}).1, (e.form .canonical {}).2.renumber f) :=
    (mirrors_form hinj h).same {} fun _ hid => (nomatch hid)
  rw [render_eq_broken, render_eq_broken, hcanonical, hform]

end Expr

end Printing

end Hygiene
