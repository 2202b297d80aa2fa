import Hygiene.Proofs.Layout.Words

/-!
# The one-line text of code is unambiguous

What is written on one line can be read back, up to the hints of identifiers: the text says what kind of
expression it is, what its parts are and where each of them stops. The way back goes through forms, as
the printer does.

* A form whose words stop at the first delimiter can be read (`Form.reads_oneLine`). It begins with an
  opening parenthesis just when it has parts, and of the heads only `let` has bindings behind it.
* Different expressions have different forms (`Expr.beq_of_form_eq`). Here it matters what the words
  are: a name must not be a literal, a function must not be a keyword, and the `#` that every
  identifier has in it must not stand in a name.

`Expr.Legible` asks for all of this, and

> `Expr.text_unambiguous`: two legible expressions with the same text are the same expression.
-/

namespace Hygiene

open Text (Ends Closes Solid Reads opening opens)

/-! ## Forms -/

namespace Form

/-- Induction on a form, with a hypothesis for every form in a list inside it. -/
@[induction_eliminator]
theorem induct {motive : Form → Prop} (atom : ∀ text, motive (.atom text))
    (call : ∀ head args, (∀ f ∈ args, motive f) → motive (.call head args))
    (letIn : ∀ bindings body, (∀ b ∈ bindings, motive b.2) → motive body →
      motive (.letIn bindings body))
    (f : Form) : motive f := by
  refine @Form.rec motive (fun fs => ∀ f ∈ fs, motive f) (fun bs => ∀ b ∈ bs, motive b.2)
    (fun b => motive b.2) atom call letIn ?_ ?_ ?_ ?_ ?_ f
  · intro f hf
    cases hf
  · intro f fs hf hfs g hg
    rcases List.mem_cons.mp hg with rfl | hg
    · exact hf
    · exact hfs g hg
  · intro b hb
    cases hb
  · intro b bs hb hbs c hc
    rcases List.mem_cons.mp hc with rfl | hc
    · exact hb
    · exact hbs c hc
  · intro _ _ hf
    exact hf

/-- A text that stands in code as one piece: a word, or a literal. -/
def Leaf (text : String) : Prop := Solid text.toList ∨ ∃ v : Value, v.literal = text

theorem opening_leaf {t : String} (h : Leaf t) {r : List Char} (hr : Ends r) :
    opening (t.toList ++ r) ≠ some '(' := by
  rcases h with hword | ⟨v, rfl⟩
  · simp [hword.opening_append hr]
  · by_cases hlist : v.opener = some '('
    · simp [Value.literal_of_list hlist, opens]
    · rwa [Value.literal_of_not_list hlist, v.opening_text hr]

/-- A leaf stops at the first place where something can stand behind it. -/
theorem leaf_inj {t u : String} (ht : Leaf t) (hu : Leaf u) {r s : List Char} (hr : Ends r)
    (hs : Ends s) (h : t.toList ++ r = u.toList ++ s) : t = u ∧ r = s := by
  -- a literal that is written as a word is a word like any other
  have hkind : ∀ {t : String}, Leaf t →
      Solid t.toList ∨ ∃ v : Value, v.literal = t ∧ v.opener ≠ none := by
    rintro t (hword | ⟨v, rfl⟩)
    · exact Or.inl hword
    · by_cases hword : v.opener = none
      · rw [Value.literal_of_not_list (by simp [hword])]
        exact Or.inl (Value.solid_text hword)
      · exact Or.inr ⟨v, rfl, hword⟩
  rcases hkind ht with hword | ⟨v, rfl, hv⟩
  · rcases hkind hu with hword' | ⟨w, rfl, hw⟩
    · obtain ⟨hsame, hrest⟩ := hword.append_inj hword' hr hs h
      exact ⟨String.toList_inj.mp hsame, hrest⟩
    · exact absurd h (Value.word_ne_literal hword hw hr hs)
  · rcases hkind hu with hword' | ⟨w, rfl, hw⟩
    · exact absurd h.symm (Value.word_ne_literal hword' hv hs hr)
    · obtain ⟨hsame, hrest⟩ := v.reads_literal w trivial r s hr hs h
      exact ⟨congrArg Value.literal hsame, hrest⟩

/-- A form that can be read: its leaves are leaves, heads and binders are words, and no call is a `let`
with its bindings as an argument. -/
inductive Legible : Form → Prop
  | atom {text : String} : Leaf text → Legible (.atom text)
  | call {head : String} {args : List Form} : Solid head.toList → head ≠ "let" →
      (∀ f ∈ args, Legible f) → Legible (.call head args)
  | letIn {bindings : List (String × Form)} {body : Form} : (∀ b ∈ bindings, Solid b.1.toList) →
      (∀ b ∈ bindings, Legible b.2) → Legible body → Legible (.letIn bindings body)

/-- A binding that can be read. -/
def LegibleBinding (b : String × Form) : Prop := Solid b.1.toList ∧ b.2.Legible

theorem toList_oneLineArgs (fs : List Form) :
    (oneLineArgs fs).toList = fs.flatMap fun f => ' ' :: f.oneLine.toList := by
  induction fs with
  | nil => rfl
  | cons f fs ih => simp [oneLineArgs, ih]

/-- A binder and its value on one line. -/
def oneLineBinding (b : String × Form) : String := "(" ++ b.1 ++ " " ++ b.2.oneLine ++ ")"

theorem oneLineBindings_eq_map (bs : List (String × Form)) :
    oneLineBindings bs = bs.map oneLineBinding := by
  induction bs with
  | nil => rfl
  | cons b bs ih => rw [oneLineBindings, ih, List.map_cons, oneLineBinding]

theorem toList_call_append (head : String) (args : List Form) (r : List Char) :
    (oneLine (call head args)).toList ++ r
      = '(' :: (head.toList ++ (args.flatMap (fun f => ' ' :: f.oneLine.toList) ++ ')' :: r)) := by
  simp [oneLine, toList_oneLineArgs]

theorem toList_letIn_append (bindings : List (String × Form)) (body : Form) (r : List Char) :
    (oneLine (letIn bindings body)).toList ++ r
      = '(' :: ("let".toList ++ ' ' :: '(' :: ((" ".intercalate (bindings.map oneLineBinding)).toList
          ++ ')' :: ' ' :: (body.oneLine.toList ++ ')' :: r))) := by
  rw [oneLine, oneLineBindings_eq_map]
  simp

/-- A binding can be read when its value can. -/
theorem reads_oneLineBinding {b : String × Form} (hbinder : Solid b.1.toList)
    (hvalue : Reads oneLine Legible b.2) :
    Reads oneLineBinding LegibleBinding b := by
  intro c hc r s _ _ h
  have hlist : b.1.toList ++ ' ' :: (b.2.oneLine.toList ++ ')' :: r)
      = c.1.toList ++ ' ' :: (c.2.oneLine.toList ++ ')' :: s) := by
    simpa [oneLineBinding] using h
  obtain ⟨hfirst, hbehind⟩ := hbinder.append_inj hc.1 (Text.ends_space _) (Text.ends_space _) hlist
  obtain ⟨hsecond, hrest⟩ := hvalue c.2 hc.2 _ _ (Closes.ends (Or.inl rfl) r)
    (Closes.ends (Or.inl rfl) s) (List.cons.inj hbehind).2
  exact ⟨Prod.ext (String.toList_inj.mp hfirst) hsecond, (List.cons.inj hrest).2⟩

/-- No call is written like a `letIn`, since only there the head is `let`. -/
theorem call_ne_letIn {head : String} {args : List Form} (hhead : Solid head.toList)
    (hlet : head ≠ "let") {bindings : List (String × Form)} {body : Form} (r s : List Char) :
    (oneLine (call head args)).toList ++ r ≠ (oneLine (letIn bindings body)).toList ++ s := by
  intro h
  rw [toList_call_append, toList_letIn_append] at h
  obtain ⟨hsame, -⟩ := hhead.append_inj (v := "let".toList) (by decide)
    (Text.ends_spaced (Or.inl rfl) args r) (Text.ends_space _) (List.cons.inj h).2
  exact hlet (String.toList_inj.mp hsame)

/-- A leaf is not written like anything that has parts. -/
theorem atom_ne_of_parens {t u : String} (ht : Leaf t) {inside r s : List Char} (hr : Ends r)
    (hu : u.toList ++ s = '(' :: inside) : t.toList ++ r ≠ u.toList ++ s := by
  intro h
  apply opening_leaf ht hr
  rw [h, hu]
  rfl

/-- **The text of a form on one line is read in one way only.** -/
theorem reads_oneLine {f : Form} (hf : f.Legible) : Reads oneLine Legible f := by
  induction f with
  | atom t =>
    intro g hg r s hr hs h
    cases hf with
    | atom ht =>
      cases hg with
      | atom hu =>
        obtain ⟨hsame, hrest⟩ := leaf_inj ht hu hr hs h
        exact ⟨by rw [hsame], hrest⟩
      | call _ _ _ => exact absurd h (atom_ne_of_parens ht hr (toList_call_append _ _ s))
      | letIn _ _ _ => exact absurd h (atom_ne_of_parens ht hr (toList_letIn_append _ _ s))
  | call head args ih =>
    intro g hg r s hr hs h
    cases hf with
    | call hhead hlet hargs =>
      cases hg with
      | atom hu =>
        exact absurd h.symm (atom_ne_of_parens hu hs (toList_call_append head args r))
      | call hhead' _ hargs' =>
        rw [toList_call_append, toList_call_append] at h
        obtain ⟨hsame, hbehind⟩ := hhead.append_inj hhead' (Text.ends_spaced (Or.inl rfl) _ r)
          (Text.ends_spaced (Or.inl rfl) _ s) (List.cons.inj h).2
        obtain ⟨hall, hrest⟩ := Text.spaced_inj (Or.inl rfl) (fun f hf => ih f hf (hargs f hf))
          hargs' hbehind
        exact ⟨by rw [String.toList_inj.mp hsame, hall], hrest⟩
      | letIn _ _ _ => exact absurd h (call_ne_letIn hhead hlet r s)
  | letIn bindings body ihb ih =>
    intro g hg r s hr hs h
    cases hf with
    | letIn hbinders hvalues hbody =>
      cases hg with
      | atom hu =>
        exact absurd h.symm (atom_ne_of_parens hu hs (toList_letIn_append bindings body r))
      | call hhead hlet _ => exact absurd h.symm (call_ne_letIn hhead hlet s r)
      | letIn hbinders' hvalues' hbody' =>
        rw [toList_letIn_append, toList_letIn_append] at h
        have hinside := (List.cons.inj (List.append_cancel_left (List.cons.inj h).2)).2
        have hitems : ∀ b ∈ bindings, LegibleBinding b ∧ Reads oneLineBinding LegibleBinding b :=
          fun b hb => ⟨⟨hbinders b hb, hvalues b hb⟩,
            reads_oneLineBinding (hbinders b hb) (ihb b hb (hvalues b hb))⟩
        obtain ⟨hsame, hbehind⟩ := Text.separated_inj (Or.inl rfl)
          (fun b _ => by simp [oneLineBinding, Ends]) hitems
          (fun b hb => ⟨hbinders' b hb, hvalues' b hb⟩) (List.cons.inj hinside).2
        obtain ⟨hbodies, hrest⟩ := ih hbody _ hbody' _ _ (Closes.ends (Or.inl rfl) r)
          (Closes.ends (Or.inl rfl) s) (List.cons.inj hbehind).2
        exact ⟨by rw [hsame, hbodies], (List.cons.inj hrest).2⟩

theorem eq_of_oneLine_eq {f g : Form} (hf : f.Legible) (hg : g.Legible)
    (h : f.oneLine = g.oneLine) : f = g := by
  have hnothing : f.oneLine.toList ++ [] = g.oneLine.toList ++ [] := by rw [h]
  exact (reads_oneLine hf g hg [] [] trivial trivial hnothing).1

end Form

/-! ## Expressions -/

namespace Expr

/-- An expression whose words mean to a reader what they are: names, functions and hints are plain, no
name is written like a literal, and no function is called like a keyword. -/
inductive Legible : Expr → Prop
  | lit {v : Value} : Legible (.lit v)
  | name {n : String} : Text.Plain n → n ∉ ["nil", "true", "false"] →
      (∀ k : Int64, n ≠ Text.decimal k.toInt) → Legible (.name n)
  | ref {i : Ident} : Text.Plain i.hint → Legible (.ref i)
  | call {f : String} {args : List Expr} : Text.Plain f → f ∉ ["do", "if", "let"] →
      (∀ e ∈ args, Legible e) → Legible (.call f args)
  | letIn {bindings : List (Binder × Expr)} {body : Expr} :
      (∀ b ∈ bindings, Text.Plain b.1.word) → (∀ b ∈ bindings, Legible b.2) → Legible body →
      Legible (.letIn bindings body)
  | seq {items : List Expr} : (∀ e ∈ items, Legible e) → Legible (.seq items)
  | cond {c t e : Expr} : Legible c → Legible t → Legible e → Legible (.cond c t e)

theorem legible_forms {es : List Expr}
    (h : ∀ e ∈ es, ∀ numbers, (e.form .global numbers).1.Legible) (numbers : Numbers) :
    ∀ f ∈ (forms .global es numbers).1, f.Legible := by
  induction es generalizing numbers with
  | nil => intro f hf; cases hf
  | cons e es ih =>
    intro f hf
    rcases List.mem_cons.mp hf with rfl | hf
    · exact h e List.mem_cons_self numbers
    · exact ih (fun e he => h e (List.mem_cons_of_mem _ he)) _ f hf

theorem legible_formsBindings {bs : List (Binder × Expr)}
    (hbinders : ∀ b ∈ bs, Text.Plain b.1.word)
    (h : ∀ b ∈ bs, ∀ numbers, (b.2.form .global numbers).1.Legible) (numbers : Numbers) :
    ∀ b ∈ (formsBindings .global bs numbers).1, Solid b.1.toList ∧ b.2.Legible := by
  induction bs generalizing numbers with
  | nil => intro b hb; cases hb
  | cons b bs ih =>
    intro c hc
    rcases List.mem_cons.mp hc with rfl | hc
    · exact ⟨b.1.solid_label (hbinders b List.mem_cons_self) numbers, h b List.mem_cons_self _⟩
    · exact ih (fun b hb => hbinders b (List.mem_cons_of_mem _ hb))
        (fun b hb => h b (List.mem_cons_of_mem _ hb)) _ c hc

/-- The form of a legible expression can be read. -/
theorem legible_form {e : Expr} (h : e.Legible) :
    ∀ numbers, (e.form .global numbers).1.Legible := by
  induction h with
  | lit => intro numbers; exact .atom (Or.inr ⟨_, rfl⟩)
  | name hplain _ _ => intro numbers; exact .atom (Or.inl hplain.solid)
  | ref hplain => intro numbers; exact .atom (Or.inl (Ident.solid_text hplain))
  | call hplain hkeyword _ ih =>
    intro numbers
    exact .call hplain.solid (fun hlet => hkeyword (by simp [hlet])) (legible_forms ih numbers)
  | letIn hbinders _ _ ihb ih =>
    intro numbers
    have hbindings := legible_formsBindings hbinders ihb numbers
    exact .letIn (fun b hb => (hbindings b hb).1) (fun b hb => (hbindings b hb).2) (ih _)
  | seq _ ih => intro numbers; exact .call (by decide) (by decide) (legible_forms ih numbers)
  | cond _ _ _ ihc iht ihe =>
    intro numbers
    refine .call (by decide) (by decide) fun f hf => ?_
    rcases List.mem_cons.mp hf with rfl | hf
    · exact ihc _
    · rcases List.mem_cons.mp hf with rfl | hf
      · exact iht _
      · rw [List.mem_singleton.mp hf]
        exact ihe _

/-! ### Different expressions have different forms -/

theorem beqAll_of_forms_eq {es es' : List Expr}
    (h : ∀ e ∈ es, ∀ e' : Expr, e'.Legible → ∀ numbers numbers',
      (e.form .global numbers).1 = (e'.form .global numbers').1 → e.beq e' = true)
    (hes' : ∀ e ∈ es', e.Legible) {numbers numbers' : Numbers}
    (hforms : (forms .global es numbers).1 = (forms .global es' numbers').1) :
    beqAll es es' = true := by
  induction es generalizing es' numbers numbers' with
  | nil =>
    cases es' with
    | nil => rfl
    | cons e' es' => cases hforms
  | cons e es ih =>
    cases es' with
    | nil => cases hforms
    | cons e' es' =>
      obtain ⟨hfirst, hothers⟩ := List.cons.inj hforms
      rw [beqAll, h e List.mem_cons_self e' (hes' e' List.mem_cons_self) _ _ hfirst,
        ih (fun e he => h e (List.mem_cons_of_mem _ he))
          (fun e he => hes' e (List.mem_cons_of_mem _ he)) hothers]
      rfl

theorem beqBindings_of_formsBindings_eq {bs bs' : List (Binder × Expr)}
    (h : ∀ b ∈ bs, ∀ e' : Expr, e'.Legible → ∀ numbers numbers',
      (b.2.form .global numbers).1 = (e'.form .global numbers').1 → b.2.beq e' = true)
    (hbs : ∀ b ∈ bs, Text.Plain b.1.word) (hbs' : ∀ b ∈ bs', Text.Plain b.1.word ∧ b.2.Legible)
    {numbers numbers' : Numbers}
    (hforms : (formsBindings .global bs numbers).1 = (formsBindings .global bs' numbers').1) :
    beqBindings bs bs' = true := by
  induction bs generalizing bs' numbers numbers' with
  | nil =>
    cases bs' with
    | nil => rfl
    | cons b' bs' => cases hforms
  | cons b bs ih =>
    cases bs' with
    | nil => cases hforms
    | cons b' bs' =>
      obtain ⟨hfirst, hothers⟩ := List.cons.inj hforms
      obtain ⟨hlabel, hvalue⟩ := Prod.mk.inj hfirst
      obtain ⟨hplain', hlegible'⟩ := hbs' b' List.mem_cons_self
      have hbinder : (b.1 == b'.1) = true :=
        Binder.beq_of_label_eq (hbs b List.mem_cons_self) hplain' hlabel
      have hrest := ih (fun b hb => h b (List.mem_cons_of_mem _ hb))
        (fun b hb => hbs b (List.mem_cons_of_mem _ hb))
        (fun b hb => hbs' b (List.mem_cons_of_mem _ hb)) hothers
      rw [beqBindings, hbinder, h b List.mem_cons_self b'.2 hlegible' _ _ hvalue, hrest]
      rfl

/-- **Different expressions have different forms**, whatever tables they are numbered with, since the
numbers that identifiers were drawn with do not depend on the table. -/
theorem beq_of_form_eq {e : Expr} (he : e.Legible) : ∀ e' : Expr, e'.Legible →
    ∀ numbers numbers', (e.form .global numbers).1 = (e'.form .global numbers').1 →
      e.beq e' = true := by
  induction he with
  -- the first three are words in the form, and only what the word is tells them apart
  | @lit v =>
    intro e' he' numbers numbers' h
    cases he' with
    | @lit w =>
      rw [Value.literal_inj (Form.atom.inj h)]
      exact beq_self _
    | name hplain hwords hnumeral =>
      exact absurd (Form.atom.inj h) (v.literal_ne_word hplain.solid hwords hnumeral)
    | ref hplain => exact absurd (Form.atom.inj h) (Ident.literal_ne_text hplain v)
    | _ => cases h
  | @name n hplain hwords hnumeral =>
    intro e' he' numbers numbers' h
    cases he' with
    | @lit w =>
      exact absurd (Form.atom.inj h).symm (w.literal_ne_word hplain.solid hwords hnumeral)
    | name _ _ _ =>
      rw [Form.atom.inj h]
      exact beq_self _
    | @ref j _ => exact absurd (Form.atom.inj h) (j.ne_text_of_plain hplain)
    | _ => cases h
  | @ref i hplain =>
    intro e' he' numbers numbers' h
    cases he' with
    | @lit w => exact absurd (Form.atom.inj h).symm (Ident.literal_ne_text hplain w)
    | name hplain' _ _ => exact absurd (Form.atom.inj h).symm (i.ne_text_of_plain hplain')
    | ref hplain' => exact Ident.beq_of_text_eq hplain hplain' (Form.atom.inj h)
    | _ => cases h
  -- the head of a form is a keyword just when the expression is no call
  | call hplain hkeyword _ ih =>
    intro e' he' numbers numbers' h
    cases he' with
    | call _ _ hargs' =>
      obtain ⟨hhead, hargs⟩ := Form.call.inj h
      rw [beq, hhead, beq_self_eq_true, beqAll_of_forms_eq ih hargs' hargs]
      rfl
    | seq _ => exact absurd (by simp [(Form.call.inj h).1]) hkeyword
    | cond _ _ _ => exact absurd (by simp [(Form.call.inj h).1]) hkeyword
    | _ => cases h
  | letIn hbinders _ _ ihb ih =>
    intro e' he' numbers numbers' h
    cases he' with
    | letIn hbinders' hvalues' hbody' =>
      obtain ⟨hbindings, hbody⟩ := Form.letIn.inj h
      have hsame := beqBindings_of_formsBindings_eq ihb hbinders
        (fun b hb => ⟨hbinders' b hb, hvalues' b hb⟩) hbindings
      rw [beq, hsame, ih _ hbody' _ _ hbody]
      rfl
    | _ => cases h
  | seq _ ih =>
    intro e' he' numbers numbers' h
    cases he' with
    | seq hitems' => exact beqAll_of_forms_eq ih hitems' (Form.call.inj h).2
    | call _ hkeyword _ => exact absurd (by simp [← (Form.call.inj h).1]) hkeyword
    | cond _ _ _ => exact absurd (Form.call.inj h).1 (by decide)
    | _ => cases h
  | cond _ _ _ ihc iht ihe =>
    intro e' he' numbers numbers' h
    cases he' with
    | cond hc' ht' he' =>
      obtain ⟨hc, hrest⟩ := List.cons.inj (Form.call.inj h).2
      obtain ⟨ht, hrest⟩ := List.cons.inj hrest
      obtain ⟨he, -⟩ := List.cons.inj hrest
      rw [beq, ihc _ hc' _ _ hc, iht _ ht' _ _ ht, ihe _ he' _ _ he]
      rfl
    | call _ hkeyword _ => exact absurd (by simp [← (Form.call.inj h).1]) hkeyword
    | seq _ => exact absurd (Form.call.inj h).1 (by decide)
    | _ => cases h

/-- **The one-line text of code is unambiguous.** Expressions with the same text are the same, up to
the hints of identifiers, provided that their words are plain and none of them says something else. -/
theorem text_unambiguous {e₁ e₂ : Expr} (h₁ : e₁.Legible) (h₂ : e₂.Legible)
    (h : e₁.text = e₂.text) : (e₁ == e₂) = true := by
  rw [text_eq_oneLine, text_eq_oneLine] at h
  have hform : (e₁.form .global {}).1 = (e₂.form .global {}).1 :=
    Form.eq_of_oneLine_eq (legible_form h₁ {}) (legible_form h₂ {}) h
  exact beq_of_form_eq h₁ e₂ h₂ {} {} hform

/-- An identifier without a hint and one with the hint that it is shown with instead. -/
theorem text_unambiguous_hintless :
    let code (hint : String) : Expr :=
      .letIn [(.ident ⟨7, hint⟩, .lit (.list [.str "x) (f", .int (-1)]))]
        (.call "f" [.ref ⟨7, hint⟩, .name "x", .seq []])
    ((code "").Legible ∧ (code "g").Legible)
      ∧ (code "").text = "(let ((g#7 '(\"x) (f\" -1))) (f g#7 x (do)))"
      ∧ (code "").text = (code "g").text ∧ (code "" == code "g") = true := by
  intro code
  have hlegible : ∀ hint : String, Text.Plain hint → (code hint).Legible := by
    intro hint hplain
    have hname : (name "x").Legible :=
      .name (by decide) (by decide) fun k => Text.ne_decimal (c := 'x') (by decide) (by decide) _
    refine .letIn ?_ ?_ (.call (by decide) (by decide) ?_)
    · simpa [Binder.word] using hplain
    · simpa using Legible.lit
    · simp only [List.mem_cons, List.not_mem_nil, or_false, forall_eq_or_imp, forall_eq]
      exact ⟨.ref hplain, hname, .seq fun e he => nomatch he⟩
  have htext : (code "").text = (code "g").text := by decide
  have hboth := And.intro (hlegible "" (by decide)) (hlegible "g" (by decide))
  exact ⟨hboth, by decide, htext, text_unambiguous hboth.1 hboth.2 htext⟩

end Expr

end Hygiene
