import Hygiene.Layout.Printer
import Hygiene.Proofs.Template.Occurrences

/-!
# Numbering apart from layout

The printer goes over an expression more than once: first to put it on one line, then again, part by
part, when that line turns out too long. All these passes share one table of canonical numbers, so a
number could well depend on what has been tried before. It does not: a pass finds everything known in
a table that has been through it once (`Numbers.Settles`), and printing comes apart into two steps
that are each done once.

* `Expr.form` turns every identifier into its text, from left to right. What it leaves is a `Form`, in
  which a call, a sequence and a choice are all a head with arguments.
* `Form.oneLine` and `Form.broken` put a form on one line or break it over several. They know nothing
  about identifiers.

> `Expr.render_eq_broken`: what is printed is the form of the expression, laid out.
-/

namespace Hygiene

/-! ## Passes that share a table -/

namespace Numbers

/-- The later table has every number of the earlier one, and perhaps further ones behind them. -/
def Extends (later earlier : Numbers) : Prop := earlier.seen <+: later.seen

theorem Extends.refl (numbers : Numbers) : numbers.Extends numbers := List.prefix_refl _

theorem Extends.trans {c b a : Numbers} (h : c.Extends b) (k : b.Extends a) : c.Extends a :=
  List.IsPrefix.trans k h

/-- A pass that hands on the table adds to it only, and finds everything known in a table that has
been through it. -/
structure Settles {α : Type} (pass : Numbers → α × Numbers) : Prop where
  grows : ∀ numbers, (pass numbers).2.Extends numbers
  known : ∀ numbers later : Numbers, later.Extends (pass numbers).2 →
    pass later = ((pass numbers).1, later)

namespace Settles

variable {α β : Type} {pass : Numbers → α × Numbers}

theorem const (a : α) : Settles fun numbers => (a, numbers) :=
  ⟨fun numbers => Extends.refl numbers, fun _ _ _ => rfl⟩

/-- One pass after another, on the table that the first one hands on. -/
theorem andThen (h : Settles pass) {next : α → Numbers → β × Numbers}
    (hnext : ∀ a, Settles (next a)) :
    Settles fun numbers => next (pass numbers).1 (pass numbers).2 := by
  constructor
  · intro numbers
    exact ((hnext _).grows _).trans (h.grows numbers)
  · intro numbers later hlater
    have hfirst : pass later = ((pass numbers).1, later) :=
      h.known numbers later (hlater.trans ((hnext _).grows _))
    show next (pass later).1 (pass later).2 = _
    rw [hfirst]
    exact (hnext _).known (pass numbers).2 later hlater

/-- The second time there is nothing left to add. -/
theorem again (h : Settles pass) (numbers : Numbers) : pass (pass numbers).2 = pass numbers :=
  h.known numbers _ (Extends.refl _)

end Settles

theorem settles_number (id : UInt64) : Settles fun numbers => numbers.number id := by
  constructor
  · intro numbers
    show numbers.seen <+: (numbers.number id).2.seen
    unfold number
    split
    · exact List.prefix_refl _
    · exact List.prefix_append _ _
  · intro numbers later hlater
    obtain ⟨more, hmore⟩ := hlater
    cases hplace : numbers.seen.idxOf? id with
    | some place =>
      -- known from the start, at a place that nothing added behind can move
      rw [number_of_idxOf? hplace] at hmore ⊢
      refine number_of_idxOf? ?_
      rw [← hmore, List.idxOf?, List.findIdx?_append]
      exact Option.or_eq_some_iff.mpr (Or.inl hplace)
    | none =>
      have hnew : id ∉ numbers.seen := List.idxOf?_eq_none_iff.mp hplace
      rw [number_of_not_mem hnew] at hmore ⊢
      refine number_of_idxOf? ?_
      rw [← hmore, List.idxOf?, List.findIdx?_append, List.findIdx?_append,
        show numbers.seen.findIdx? (fun x => x == id) = none from hplace]
      simp

end Numbers

theorem Numbering.settles_label (numbering : Numbering) (i : Ident) :
    Numbers.Settles (numbering.label i) := by
  cases numbering with
  | global => exact .const _
  | canonical => exact (Numbers.settles_number i.id).andThen fun n => .const (i.labelled n)

theorem Binder.settles_label (numbering : Numbering) (b : Binder) :
    Numbers.Settles fun numbers => b.label numbering numbers := by
  cases b with
  | name n => exact .const n
  | ident i => exact numbering.settles_label i

/-! ## Forms -/

/-- The parts of a printed expression, with every identifier turned into text. -/
inductive Form where
  /-- A word that is never broken. -/
  | atom (text : String)
  /-- A head with its arguments. -/
  | call (head : String) (args : List Form)
  | letIn (bindings : List (String × Form)) (body : Form)

namespace Expr

mutual

/-- The form of an expression, and the table of canonical numbers after it. -/
def form (numbering : Numbering) : Expr → Numbers → Form × Numbers
  | lit v, numbers => (.atom v.literal, numbers)
  | name n, numbers => (.atom n, numbers)
  | ref i, numbers =>
    let (text, numbers) := numbering.label i numbers
    (.atom text, numbers)
  | call f args, numbers =>
    let (args, numbers) := forms numbering args numbers
    (.call f args, numbers)
  | seq items, numbers =>
    let (items, numbers) := forms numbering items numbers
    (.call "do" items, numbers)
  | cond c t e, numbers =>
    let (c, numbers) := form numbering c numbers
    let (t, numbers) := form numbering t numbers
    let (e, numbers) := form numbering e numbers
    (.call "if" [c, t, e], numbers)
  | letIn bindings body, numbers =>
    let (bindings, numbers) := formsBindings numbering bindings numbers
    let (body, numbers) := form numbering body numbers
    (.letIn bindings body, numbers)

/-- The forms of several expressions, the first one's identifiers numbered first. -/
def forms (numbering : Numbering) : List Expr → Numbers → List Form × Numbers
  | [], numbers => ([], numbers)
  | e :: es, numbers =>
    let (first, numbers) := form numbering e numbers
    let (others, numbers) := forms numbering es numbers
    (first :: others, numbers)

/-- The forms of bindings: each binder, then its value. -/
def formsBindings (numbering : Numbering) :
    List (Binder × Expr) → Numbers → List (String × Form) × Numbers
  | [], numbers => ([], numbers)
  | (b, e) :: rest, numbers =>
    let (binder, numbers) := b.label numbering numbers
    let (value, numbers) := form numbering e numbers
    let (others, numbers) := formsBindings numbering rest numbers
    ((binder, value) :: others, numbers)

end

theorem settles_forms {numbering : Numbering} {es : List Expr}
    (h : ∀ e ∈ es, Numbers.Settles (e.form numbering)) :
    Numbers.Settles (forms numbering es) := by
  induction es with
  | nil => exact .const _
  | cons e es ih =>
    have hrest := ih fun e he => h e (List.mem_cons_of_mem _ he)
    exact (h e List.mem_cons_self).andThen fun first => hrest.andThen fun others =>
      .const (first :: others)

theorem settles_formsBindings {numbering : Numbering} {bs : List (Binder × Expr)}
    (h : ∀ b ∈ bs, Numbers.Settles (b.2.form numbering)) :
    Numbers.Settles (formsBindings numbering bs) := by
  induction bs with
  | nil => exact .const _
  | cons b bs ih =>
    have hrest := ih fun b hb => h b (List.mem_cons_of_mem _ hb)
    exact (b.1.settles_label numbering).andThen fun binder =>
      (h b List.mem_cons_self).andThen fun value => hrest.andThen fun others =>
        .const ((binder, value) :: others)

/-- **A second pass changes nothing.** Once an expression has been numbered, its form is the same in
every table that came out of it or has grown since. -/
theorem settles_form (numbering : Numbering) (e : Expr) :
    Numbers.Settles (e.form numbering) := by
  induction e with
  | lit v => exact .const _
  | name n => exact .const _
  | ref i => exact (numbering.settles_label i).andThen fun text => .const (Form.atom text)
  | call f args ih => exact (settles_forms ih).andThen fun args => .const (Form.call f args)
  | letIn bindings body ihb ih =>
    exact (settles_formsBindings ihb).andThen fun bindings =>
      ih.andThen fun body => .const (Form.letIn bindings body)
  | seq items ih => exact (settles_forms ih).andThen fun items => .const (Form.call "do" items)
  | cond c t e ihc iht ihe =>
    exact ihc.andThen fun c => iht.andThen fun t => ihe.andThen fun e =>
      .const (Form.call "if" [c, t, e])

end Expr

namespace Form

open Layout (newline bindingOffset)

mutual

/-- A form on one line. -/
def oneLine : Form → String
  | atom text => text
  | call head args => "(" ++ head ++ oneLineArgs args ++ ")"
  | letIn bindings body =>
    "(let (" ++ " ".intercalate (oneLineBindings bindings) ++ ") " ++ oneLine body ++ ")"

/-- Arguments on one line, each behind a space. -/
def oneLineArgs : List Form → String
  | [] => ""
  | f :: rest => " " ++ oneLine f ++ oneLineArgs rest

/-- The texts of bindings on one line. -/
def oneLineBindings : List (String × Form) → List String
  | [] => []
  | (binder, value) :: rest =>
    ("(" ++ binder ++ " " ++ oneLine value ++ ")") :: oneLineBindings rest

end

mutual

/-- A form laid out from a column. -/
def broken (layout : Layout) : Form → (column : Nat) → String
  | atom text, _ => text
  | call head args, column =>
    let line := oneLine (call head args)
    if layout.fits column line then line
    else "(" ++ head ++ brokenArgs layout args (column + layout.indent) ++ ")"
  | letIn bindings body, column =>
    let line := oneLine (letIn bindings body)
    if layout.fits column line then line
    else
      "(let ("
        ++ (newline (column + bindingOffset)).intercalate
            (brokenBindings layout bindings (column + bindingOffset))
        ++ ")" ++ newline (column + layout.indent)
        ++ broken layout body (column + layout.indent) ++ ")"

/-- Arguments, each on a line of its own from the given column. -/
def brokenArgs (layout : Layout) : List Form → (column : Nat) → String
  | [], _ => ""
  | f :: rest, column =>
    newline column ++ broken layout f column ++ brokenArgs layout rest column

/-- Each binding laid out from the given column; its value starts behind the binder. -/
def brokenBindings (layout : Layout) : List (String × Form) → (column : Nat) → List String
  | [], _ => []
  | (binder, value) :: rest, column =>
    ("(" ++ binder ++ " " ++ broken layout value (column + binder.utf8ByteSize + 2) ++ ")")
      :: brokenBindings layout rest column

end

theorem broken_of_fits {layout : Layout} {f : Form} {column : Nat}
    (h : layout.fits column f.oneLine = true) : f.broken layout column = f.oneLine := by
  cases f with
  | atom text => rfl
  | call head args => rw [broken, if_pos h]
  | letIn bindings body => rw [broken, if_pos h]

/-- Nothing is broken when the width is unlimited. -/
theorem broken_of_unlimited {layout : Layout} (h : layout.width = Layout.unlimited) (f : Form)
    (column : Nat) : f.broken layout column = f.oneLine :=
  broken_of_fits (Layout.fits_of_unlimited h _ _)

end Form

/-! ## What the printer prints -/

namespace Expr

theorem flatArgs_eq_oneLineArgs {numbering : Numbering} {es : List Expr}
    (h : ∀ e ∈ es, ∀ numbers, e.flat numbering numbers
      = ((e.form numbering numbers).1.oneLine, (e.form numbering numbers).2)) :
    ∀ numbers, flatArgs numbering es numbers
      = (Form.oneLineArgs (forms numbering es numbers).1, (forms numbering es numbers).2) := by
  induction es with
  | nil => intro numbers; rfl
  | cons e es ih =>
    intro numbers
    have hrest := ih fun e he => h e (List.mem_cons_of_mem _ he)
    simp only [flatArgs, forms, h e List.mem_cons_self, hrest, Form.oneLineArgs]

theorem flatBindings_eq_oneLineBindings {numbering : Numbering} {bs : List (Binder × Expr)}
    (h : ∀ b ∈ bs, ∀ numbers, b.2.flat numbering numbers
      = ((b.2.form numbering numbers).1.oneLine, (b.2.form numbering numbers).2)) :
    ∀ numbers, flatBindings numbering bs numbers
      = (Form.oneLineBindings (formsBindings numbering bs numbers).1,
          (formsBindings numbering bs numbers).2) := by
  induction bs with
  | nil => intro numbers; rfl
  | cons b bs ih =>
    intro numbers
    obtain ⟨binder, e⟩ := b
    have hvalue := h (binder, e) List.mem_cons_self
    have hrest := ih fun b hb => h b (List.mem_cons_of_mem _ hb)
    simp only [flatBindings, formsBindings, hvalue, hrest, Form.oneLineBindings]

/-- On one line: the form of the expression, on one line. -/
theorem flat_eq_oneLine (numbering : Numbering) (e : Expr) :
    ∀ numbers, e.flat numbering numbers
      = ((e.form numbering numbers).1.oneLine, (e.form numbering numbers).2) := by
  induction e with
  | lit v => intro numbers; rfl
  | name n => intro numbers; rfl
  | ref i => intro numbers; rfl
  | call f args ih =>
    intro numbers
    simp only [flat, form, flatArgs_eq_oneLineArgs ih, Form.oneLine]
  | letIn bindings body ihb ih =>
    intro numbers
    simp only [flat, form, flatBindings_eq_oneLineBindings ihb, ih, Form.oneLine]
  | seq items ih =>
    intro numbers
    simp only [flat, form, flatArgs_eq_oneLineArgs ih, Form.oneLine]
    rfl
  | cond c t e ihc iht ihe =>
    intro numbers
    simp only [flat, form, ihc, iht, ihe, Form.oneLine, Form.oneLineArgs,
      String.intercalate_cons_cons, String.intercalate_singleton, String.append_empty,
      ← String.append_assoc]
    rfl

theorem prettyArgs_eq_brokenArgs {layout : Layout} {es : List Expr}
    (h : ∀ e ∈ es, ∀ column numbers, e.pretty layout column numbers
      = ((e.form layout.numbering numbers).1.broken layout column,
          (e.form layout.numbering numbers).2)) :
    ∀ column numbers, prettyArgs layout es column numbers
      = (Form.brokenArgs layout (forms layout.numbering es numbers).1 column,
          (forms layout.numbering es numbers).2) := by
  induction es with
  | nil => intro column numbers; rfl
  | cons e es ih =>
    intro column numbers
    have hrest := ih fun e he => h e (List.mem_cons_of_mem _ he)
    simp only [prettyArgs, forms, h e List.mem_cons_self, hrest, Form.brokenArgs]

theorem prettyBindings_eq_brokenBindings {layout : Layout} {bs : List (Binder × Expr)}
    (h : ∀ b ∈ bs, ∀ column numbers, b.2.pretty layout column numbers
      = ((b.2.form layout.numbering numbers).1.broken layout column,
          (b.2.form layout.numbering numbers).2)) :
    ∀ column numbers, prettyBindings layout bs column numbers
      = (Form.brokenBindings layout (formsBindings layout.numbering bs numbers).1 column,
          (formsBindings layout.numbering bs numbers).2) := by
  induction bs with
  | nil => intro column numbers; rfl
  | cons b bs ih =>
    intro column numbers
    obtain ⟨binder, e⟩ := b
    have hvalue := h (binder, e) List.mem_cons_self
    have hrest := ih fun b hb => h b (List.mem_cons_of_mem _ hb)
    simp only [prettyBindings, formsBindings, hvalue, hrest, Form.brokenBindings]

/-- What is left to show of the printer: what it does with a line that is too long, when the table
knows the whole expression. That line has put it there. -/
theorem pretty_eq_broken_of_known {layout : Layout} {e : Expr} {column : Nat}
    (h : ∀ later, (e.form layout.numbering later).2 = later →
      ¬ layout.fits column (e.form layout.numbering later).1.oneLine = true →
      e.pretty layout column later
        = ((e.form layout.numbering later).1.broken layout column, later))
    (numbers : Numbers) :
    e.pretty layout column numbers
      = ((e.form layout.numbering numbers).1.broken layout column,
          (e.form layout.numbering numbers).2) := by
  have hagain := (settles_form layout.numbering e).again numbers
  have hpretty : e.pretty layout column (e.form layout.numbering numbers).2
      = e.pretty layout column numbers := by
    unfold pretty
    rw [flat_eq_oneLine, flat_eq_oneLine, hagain]
  by_cases hfits : layout.fits column (e.form layout.numbering numbers).1.oneLine = true
  · unfold pretty
    rw [flat_eq_oneLine, Form.broken_of_fits hfits]
    exact if_pos hfits
  · have hknown := h (e.form layout.numbering numbers).2
    rw [hagain, hpretty] at hknown
    exact hknown rfl hfits

/-- **The printer numbers first and lays out second.** -/
theorem pretty_eq_broken (layout : Layout) (e : Expr) :
    ∀ column numbers, e.pretty layout column numbers
      = ((e.form layout.numbering numbers).1.broken layout column,
          (e.form layout.numbering numbers).2) := by
  induction e with
  | lit v => intro column; exact pretty_eq_broken_of_known fun later _ _ => ite_self _
  | name n => intro column; exact pretty_eq_broken_of_known fun later _ _ => ite_self _
  | ref i =>
    intro column
    refine pretty_eq_broken_of_known fun later hlater _ => ?_
    unfold pretty
    rw [flat_eq_oneLine, hlater]
    exact ite_self _
  | call f args ih =>
    intro column
    refine pretty_eq_broken_of_known fun later hlater hlong => ?_
    unfold pretty
    rw [flat_eq_oneLine, hlater]
    simp only [if_neg hlong, prettyArgs_eq_brokenArgs ih]
    exact Prod.ext (if_neg hlong).symm hlater
  | letIn bindings body ihb ih =>
    intro column
    refine pretty_eq_broken_of_known fun later hlater hlong => ?_
    unfold pretty
    rw [flat_eq_oneLine, hlater]
    simp only [if_neg hlong, prettyBindings_eq_brokenBindings ihb, ih]
    exact Prod.ext (if_neg hlong).symm hlater
  | seq items ih =>
    intro column
    refine pretty_eq_broken_of_known fun later hlater hlong => ?_
    unfold pretty
    rw [flat_eq_oneLine, hlater]
    simp only [if_neg hlong, prettyArgs_eq_brokenArgs ih]
    exact Prod.ext (if_neg hlong).symm hlater
  | cond c t e ihc iht ihe =>
    intro column
    refine pretty_eq_broken_of_known fun later hlater hlong => ?_
    unfold pretty
    rw [flat_eq_oneLine, hlater]
    simp only [if_neg hlong, ihc, iht, ihe]
    refine Prod.ext (Eq.trans ?_ (if_neg hlong).symm) hlater
    simp only [Form.brokenArgs, String.append_empty, ← String.append_assoc]
    rfl

/-- What is printed is the form of the expression, laid out. -/
theorem render_eq_broken (e : Expr) (layout : Layout) :
    e.render layout = (e.form layout.numbering {}).1.broken layout 0 := by
  rw [render, pretty_eq_broken]

/-- With an unlimited width that is one line. -/
theorem render_of_unlimited (e : Expr) {layout : Layout} (h : layout.width = Layout.unlimited) :
    e.render layout = (e.form layout.numbering {}).1.oneLine := by
  rw [render_eq_broken, Form.broken_of_unlimited h]

theorem text_eq_oneLine (e : Expr) : e.text = (e.form .global {}).1.oneLine :=
  e.render_of_unlimited rfl

end Expr

end Hygiene
