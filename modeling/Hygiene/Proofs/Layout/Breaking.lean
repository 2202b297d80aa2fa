import Hygiene.Proofs.Layout.Form
import Hygiene.Proofs.Text.Joining

/-!
# Breaking lines changes nothing else

A form that is broken over several lines has the texts of the form on one line, in the same order, and
between them either the same spaces or line breaks. So joining the lines again gives the one-line text
back, provided that the joining can tell the breaks that the layout made from what people wrote: the
names, functions and hints of an expression (`Expr.words`) must not hold any white space. What literals
hold is no concern, since it is spelled out (`Value.word_literal`).

`Form.joins_broken` goes through a form with the two printers side by side;

> `Expr.joinLines_render`: rendering within any width and joining the lines again is rendering
> without a limit.
-/

namespace Hygiene

open Text (Word Joins)

/-! ## The words that people choose -/

/-- What is written for a binder: the name, or the hint of the identifier. -/
def Binder.word : Binder → String
  | name n => n
  | ident i => i.hint

namespace Expr

mutual

/-- The names, the functions and the hints of identifiers in an expression. -/
def words : Expr → List String
  | lit _ => []
  | name n => [n]
  | ref i => [i.hint]
  | call f args => f :: wordsAll args
  | letIn bindings body => wordsBindings bindings ++ words body
  | seq items => wordsAll items
  | cond c t e => words c ++ words t ++ words e

/-- Those of several expressions. -/
def wordsAll : List Expr → List String
  | [] => []
  | e :: es => words e ++ wordsAll es

/-- Those of bindings, binders and values. -/
def wordsBindings : List (Binder × Expr) → List String
  | [] => []
  | (b, e) :: rest => b.word :: (words e ++ wordsBindings rest)

end

end Expr

theorem Ident.word_labelled {i : Ident} (h : Word i.hint) (number : Nat) :
    Word (i.labelled number) := by
  have hhint : Word i.displayHint := by
    unfold displayHint
    split
    · decide
    · exact h
  exact (hhint.append (t := "#") (by decide)).append (Text.word_repr number)

theorem Numbering.word_label (numbering : Numbering) {i : Ident} (h : Word i.hint)
    (numbers : Numbers) : Word (numbering.label i numbers).1 := by
  cases numbering with
  | global => exact i.word_labelled h _
  | canonical => exact i.word_labelled h _

theorem Binder.word_label (numbering : Numbering) {b : Binder} (h : Word b.word)
    (numbers : Numbers) : Word (b.label numbering numbers).1 := by
  cases b with
  | name n => exact h
  | ident i => exact numbering.word_label h numbers

/-! ## Forms made of words -/

namespace Form

mutual

/-- Every text in a form is a word. -/
def OfWords : Form → Prop
  | atom text => Word text
  | call head args => Word head ∧ OfWordsAll args
  | letIn bindings body => OfWordsBindings bindings ∧ OfWords body

/-- Every text in several forms is a word. -/
def OfWordsAll : List Form → Prop
  | [] => True
  | f :: rest => OfWords f ∧ OfWordsAll rest

/-- Every binder and every text in the values of bindings is a word. -/
def OfWordsBindings : List (String × Form) → Prop
  | [] => True
  | (binder, value) :: rest => Word binder ∧ OfWords value ∧ OfWordsBindings rest

end

end Form

namespace Expr

variable {numbering : Numbering}

theorem ofWordsAll_forms {es : List Expr}
    (h : ∀ e ∈ es, (∀ w ∈ e.words, Word w) → ∀ numbers, (e.form numbering numbers).1.OfWords)
    (hes : ∀ w ∈ wordsAll es, Word w) (numbers : Numbers) :
    Form.OfWordsAll (forms numbering es numbers).1 := by
  induction es generalizing numbers with
  | nil => exact trivial
  | cons e es ih =>
    have hfirst := h e List.mem_cons_self fun w hw => hes w (List.mem_append_left _ hw)
    exact ⟨hfirst numbers, ih (fun e he => h e (List.mem_cons_of_mem _ he))
      (fun w hw => hes w (List.mem_append_right _ hw)) _⟩

theorem ofWordsBindings_formsBindings {bs : List (Binder × Expr)}
    (h : ∀ b ∈ bs, (∀ w ∈ b.2.words, Word w) →
      ∀ numbers, (b.2.form numbering numbers).1.OfWords)
    (hbs : ∀ w ∈ wordsBindings bs, Word w) (numbers : Numbers) :
    Form.OfWordsBindings (formsBindings numbering bs numbers).1 := by
  induction bs generalizing numbers with
  | nil => exact trivial
  | cons b bs ih =>
    obtain ⟨binder, e⟩ := b
    have hbinder : Word binder.word := hbs _ List.mem_cons_self
    have hvalue := h (binder, e) List.mem_cons_self fun w hw =>
      hbs w (List.mem_cons_of_mem _ (List.mem_append_left _ hw))
    exact ⟨binder.word_label numbering hbinder numbers, hvalue _,
      ih (fun b hb => h b (List.mem_cons_of_mem _ hb))
        (fun w hw => hbs w (List.mem_cons_of_mem _ (List.mem_append_right _ hw))) _⟩

theorem ofWords_form (e : Expr) :
    (∀ w ∈ e.words, Word w) → ∀ numbers, (e.form numbering numbers).1.OfWords := by
  induction e with
  | lit v => intro _ numbers; exact v.word_literal
  | name n => intro h numbers; exact h n List.mem_cons_self
  | ref i => intro h numbers; exact numbering.word_label (h i.hint List.mem_cons_self) numbers
  | call f args ih =>
    intro h numbers
    exact ⟨h f List.mem_cons_self,
      ofWordsAll_forms ih (fun w hw => h w (List.mem_cons_of_mem _ hw)) numbers⟩
  | letIn bindings body ihb ih =>
    intro h numbers
    exact ⟨ofWordsBindings_formsBindings ihb (fun w hw => h w (List.mem_append_left _ hw)) numbers,
      ih (fun w hw => h w (List.mem_append_right _ hw)) _⟩
  | seq items ih =>
    intro h numbers
    exact ⟨by decide, ofWordsAll_forms ih h numbers⟩
  | cond c t e ihc iht ihe =>
    intro h numbers
    simp only [words, List.mem_append, or_imp, forall_and] at h
    obtain ⟨⟨hc, ht⟩, he⟩ := h
    exact ⟨by decide, ihc hc _, iht ht _, ihe he _, trivial⟩

end Expr

/-! ## The two printers side by side -/

namespace Form

mutual

/-- On one line there is no line break. -/
theorem word_oneLine : ∀ f : Form, f.OfWords → Word f.oneLine
  | atom _, h => h
  | call head args, h => by
    have hargs := newline_not_mem_oneLineArgs args h.2
    constructor
    · simp [oneLine, h.1.unbroken, hargs]
    · simp [oneLine]
  | letIn bindings body, h => by
    have hbindings : Word ("(let (" ++ " ".intercalate (oneLineBindings bindings) ++ ") ") :=
      Text.word_bracketed (by decide) (by decide) (by simp) (words_oneLineBindings bindings h.1)
    exact (hbindings.append (word_oneLine body h.2)).append (by decide)

theorem newline_not_mem_oneLineArgs :
    ∀ fs : List Form, OfWordsAll fs → '\n' ∉ (oneLineArgs fs).toList
  | [], _ => by decide
  | f :: rest, h => by
    have hfirst := (word_oneLine f h.1).unbroken
    have hrest := newline_not_mem_oneLineArgs rest h.2
    simp [oneLineArgs, hfirst, hrest]

theorem words_oneLineBindings :
    ∀ bs : List (String × Form), OfWordsBindings bs → ∀ t ∈ oneLineBindings bs, Word t
  | [], _ => fun t ht => by cases ht
  | (binder, value) :: rest, h => fun t ht => by
    obtain ⟨hbinder, hvalue, hrest⟩ := h
    rcases List.mem_cons.mp ht with rfl | ht
    · have hline := (word_oneLine value hvalue).unbroken
      constructor
      · simp [hbinder.unbroken, hline]
      · simp
    · exact words_oneLineBindings rest hrest t ht

end

mutual

/-- **Breaking a form breaks lines and nothing else.** -/
theorem joins_broken (layout : Layout) :
    ∀ f : Form, f.OfWords → ∀ column, Joins (f.broken layout column) f.oneLine
  | atom _, h, _ => .word h
  | call head args, h, column => by
    rw [broken]
    split
    · exact .word (word_oneLine _ h)
    · have hargs := joins_brokenArgs layout args h.2 (column + layout.indent)
      have hhead : Joins ("(" ++ head) ("(" ++ head) := .word (Word.append (by decide) h.1)
      exact (hhead.append hargs).append (.word (by decide))
  | letIn bindings body, h, column => by
    rw [broken]
    split
    · exact .word (word_oneLine _ h)
    · have hbindings := Joins.intercalate (column + Layout.bindingOffset)
        (joins_brokenBindings layout bindings h.1 (column + Layout.bindingOffset))
      have hbody := joins_broken layout body h.2 (column + layout.indent)
      have hopen : Joins "(let (" "(let (" := .word (by decide)
      have hclose : Joins ")" ")" := .word (by decide)
      -- the space before the body is where the other printer has its last line break
      have hline : oneLine (letIn bindings body)
          = "(let (" ++ " ".intercalate (oneLineBindings bindings) ++ ")" ++ " " ++ oneLine body
            ++ ")" := by
        rw [oneLine, show ") " = ")" ++ " " from rfl, ← String.append_assoc]
      rw [hline]
      exact ((((hopen.append hbindings).append hclose).append (.newline _)).append hbody).append
        hclose

theorem joins_brokenArgs (layout : Layout) :
    ∀ fs : List Form, OfWordsAll fs →
      ∀ column, Joins (brokenArgs layout fs column) (oneLineArgs fs)
  | [], _, _ => .word (s := "") (by decide)
  | f :: rest, h, column =>
    ((Joins.newline column).append (joins_broken layout f h.1 column)).append
      (joins_brokenArgs layout rest h.2 column)

theorem joins_brokenBindings (layout : Layout) :
    ∀ bs : List (String × Form), OfWordsBindings bs → ∀ column,
      List.Forall₂ Joins (brokenBindings layout bs column) (oneLineBindings bs)
  | [], _, _ => .nil
  | (binder, value) :: rest, h, column => by
    obtain ⟨hbinder, hvalue, hrest⟩ := h
    refine .cons ?_ (joins_brokenBindings layout rest hrest column)
    have hopen : Joins ("(" ++ binder ++ " ") ("(" ++ binder ++ " ") :=
      .word ⟨by simp [hbinder.unbroken], by simp⟩
    exact (hopen.append (joins_broken layout value hvalue _)).append (.word (by decide))

end

end Form

namespace Expr

/-- **Line breaking never changes the content.** Joining the lines of a rendered expression gives the
text that the same numbering gives without a limit to the width, which is one line; only the words that
people chose must be free of white space. -/
theorem joinLines_render (e : Expr) (layout : Layout)
    (hwords : ∀ w ∈ e.words, ∀ c ∈ w.toList, Text.isBlank c = false) :
    Text.joinLines (e.render layout).toList
        = (e.render { layout with width := Layout.unlimited }).toList
      ∧ '\n' ∉ (e.render { layout with width := Layout.unlimited }).toList := by
  have hform : (e.form layout.numbering {}).1.OfWords :=
    e.ofWords_form (fun w hw => .of_not_isBlank (hwords w hw)) {}
  have hlimit : e.render { layout with width := Layout.unlimited }
      = (e.form layout.numbering {}).1.oneLine := e.render_of_unlimited rfl
  rw [hlimit, render_eq_broken]
  exact ⟨((e.form layout.numbering {}).1.joins_broken layout hform 0).eq,
    (Form.word_oneLine _ hform).unbroken⟩

/-- A literal with a line break and a run of spaces in it, which stay spelled out on both sides. -/
theorem joinLines_render_quoted :
    let x : Ident := ⟨7, "x"⟩
    let e : Expr := .letIn [(.ident x, .call "note" [.lit (.str "a\n   b")]), (.name "y", .ref x)]
      (.cond (.ref x) (.call "pair" [.ref x, .name "y"]) (.seq []))
    let layout : Layout := { indent := 3, width := 16, numbering := .canonical }
    (∀ w ∈ e.words, ∀ c ∈ w.toList, Text.isBlank c = false)
      ∧ Text.joinLines (e.render layout).toList
          = (e.render { layout with width := Layout.unlimited }).toList
      ∧ '\n' ∉ (e.render { layout with width := Layout.unlimited }).toList := by
  intro x e layout
  have hall : (e.words.all fun w => w.toList.all fun c => !Text.isBlank c) = true := by decide
  have hwords : ∀ w ∈ e.words, ∀ c ∈ w.toList, Text.isBlank c = false := by
    simpa only [List.all_eq_true, Bool.not_eq_true'] using hall
  exact ⟨hwords, e.joinLines_render layout hwords⟩

example : (Expr.letIn [(.ident ⟨7, "x"⟩, .name "a"), (.name "y", .ref ⟨7, "x"⟩)]
    (.call "pair" [.ref ⟨7, "x"⟩, .lit (.str "\n")])).render { width := 14 }
      = "(let ((x#1 a)\n      (y x#1))\n  (pair\n    x#1\n    \"\\n\"))" := by
  decide

end Expr

end Hygiene
