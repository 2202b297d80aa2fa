import Hygiene.Proofs.Layout.Appearance

/-!
# Canonical numbers count first appearances

Under canonical numbering the number behind a hint is the place of the identifier among all that appear
in the text, counted by where each of them appears first. The printer goes over some parts of an
expression several times before it knows how to break them, so the order of its table has to be related
to the order of the text, and that takes a text in which identifiers can be seen.

* `Expr.pieces` is the printed text in pieces, each identifier a piece of its own with its number. Once
  a table has all the identifiers of an expression its numbers stay, and the pieces read as what the
  printer prints (`Expr.join_pieces`).
* Whatever the layout, the identifiers among the pieces are those of the expression in the order in
  which the table got them, each binder in front of its value (`Expr.marks_pieces`).

> `Expr.render_numbers`: in any width and with any indentation, the text is made of pieces whose numbers
> count first appearances.
-/

namespace Hygiene

/-! ## Printed text in pieces -/

/-- A piece of printed code: an identifier with the number shown behind its hint, or other text. -/
inductive Piece where
  | text (s : String)
  | ident (i : Ident) (number : Nat)

namespace Piece

/-- The text of a piece. -/
def shown : Piece → String
  | text s => s
  | ident i number => i.labelled number

@[simp] theorem shown_text (s : String) : (text s).shown = s := rfl

/-- The identifier in a piece, with the number that it is shown with. -/
def mark? : Piece → Option (Ident × Nat)
  | text _ => none
  | ident i number => some (i, number)

/-- What pieces read as. -/
def join (pieces : List Piece) : String := String.join (pieces.map shown)

/-- The identifiers among pieces, from left to right, with their numbers. -/
def marks (pieces : List Piece) : List (Ident × Nat) := pieces.filterMap mark?

@[simp] theorem join_nil : join [] = "" := String.join_nil

@[simp] theorem join_cons (p : Piece) (ps : List Piece) : join (p :: ps) = p.shown ++ join ps := by
  rw [join, List.map_cons, String.join_cons, join]

@[simp] theorem join_append (ps qs : List Piece) : join (ps ++ qs) = join ps ++ join qs := by
  rw [join, List.map_append, String.join_append, join, join]

theorem join_intercalate (gap : String) (pss : List (List Piece)) :
    join ([text gap].intercalate pss) = gap.intercalate (pss.map join) := by
  induction pss with
  | nil => rfl
  | cons ps pss ih =>
    cases pss with
    | nil => simp
    | cons qs pss =>
      rw [List.intercalate_cons_cons, List.map_cons, List.map_cons, String.intercalate_cons_cons,
        ← List.map_cons, ← ih]
      simp [shown, String.append_assoc]

@[simp] theorem marks_append (ps qs : List Piece) : marks (ps ++ qs) = marks ps ++ marks qs :=
  List.filterMap_append

@[simp] theorem marks_nil : marks [] = [] := rfl

@[simp] theorem marks_ident_cons (i : Ident) (number : Nat) (ps : List Piece) :
    marks (ident i number :: ps) = (i, number) :: marks ps := rfl

@[simp] theorem marks_text_cons (s : String) (ps : List Piece) : marks (text s :: ps) = marks ps :=
  rfl

theorem marks_intercalate (gap : String) (pss : List (List Piece)) :
    marks ([text gap].intercalate pss) = pss.flatMap marks := by
  induction pss with
  | nil => rfl
  | cons ps pss ih =>
    cases pss with
    | nil => simp
    | cons qs pss =>
      rw [List.intercalate_cons_cons, List.flatMap_cons, ← ih]
      simp

end Piece

namespace Layout

/-- Where the line of an expression is broken: nowhere when it stands inside another line, and else
at its column if it is too long to stand there. -/
def breakAt (layout : Layout) (line : String) (place : Option Nat) : Option Nat :=
  place.filter fun column => !layout.fits column line

/-- What stands in front of a part: a line break, or a space on a line that is not broken. -/
def gap : (place : Option Nat) → String
  | none => " "
  | some column => newline column

end Layout

/-- A binder as a piece, with its number in a table. -/
def Binder.piece (numbers : Numbers) : Binder → Piece
  | name n => .text n
  | ident i => .ident i (numbers.number i.id).1

namespace Expr

open Layout (gap bindingOffset)

mutual

/-- The printed text of an expression in pieces, with the numbers of a table that has all its
identifiers. It stands at a column, or inside a line. -/
def pieces (layout : Layout) (numbers : Numbers) : Expr → (place : Option Nat) → List Piece
  | lit v, _ => [.text v.literal]
  | name n, _ => [.text n]
  | ref i, _ => [.ident i (numbers.number i.id).1]
  | call f args, place =>
    let column := layout.breakAt ((call f args).flat .canonical numbers).1 place
    let inner := column.map (· + layout.indent)
    .text ("(" ++ f) :: piecesArgs layout numbers args inner ++ [.text ")"]
  | seq items, place =>
    let column := layout.breakAt ((seq items).flat .canonical numbers).1 place
    let inner := column.map (· + layout.indent)
    .text "(do" :: piecesArgs layout numbers items inner ++ [.text ")"]
  | cond c t e, place =>
    let column := layout.breakAt ((cond c t e).flat .canonical numbers).1 place
    let inner := column.map (· + layout.indent)
    .text "(if" :: .text (gap inner) :: pieces layout numbers c inner
      ++ .text (gap inner) :: pieces layout numbers t inner
      ++ .text (gap inner) :: pieces layout numbers e inner ++ [.text ")"]
  | letIn bindings body, place =>
    let column := layout.breakAt ((letIn bindings body).flat .canonical numbers).1 place
    let outer := column.map (· + bindingOffset)
    let inner := column.map (· + layout.indent)
    .text "(let (" :: [.text (gap outer)].intercalate (piecesBindings layout numbers bindings outer)
      ++ .text ")" :: .text (gap inner) :: pieces layout numbers body inner ++ [.text ")"]

/-- Arguments in pieces, each behind a gap. -/
def piecesArgs (layout : Layout) (numbers : Numbers) :
    List Expr → (place : Option Nat) → List Piece
  | [], _ => []
  | e :: es, place =>
    .text (gap place) :: pieces layout numbers e place ++ piecesArgs layout numbers es place

/-- The pieces of each binding; its value starts behind the binder. -/
def piecesBindings (layout : Layout) (numbers : Numbers) :
    List (Binder × Expr) → (place : Option Nat) → List (List Piece)
  | [], _ => []
  | (b, e) :: rest, place =>
    let behind := place.map (· + (b.piece numbers).shown.utf8ByteSize + 2)
    (.text "(" :: b.piece numbers :: .text " " :: pieces layout numbers e behind ++ [.text ")"])
      :: piecesBindings layout numbers rest place

end

end Expr

/-! ## The pieces read as what is printed -/

namespace Form

open Layout (gap bindingOffset)

variable (layout : Layout)

/-- A form at a column, or inside a line. -/
def placed (f : Form) : (place : Option Nat) → String
  | none => f.oneLine
  | some column => f.broken layout column

/-- Arguments, each at a column or inside a line. -/
def placedArgs (fs : List Form) : (place : Option Nat) → String
  | none => oneLineArgs fs
  | some column => brokenArgs layout fs column

/-- Bindings, each at a column or inside a line. -/
def placedBindings (bs : List (String × Form)) : (place : Option Nat) → List String
  | none => oneLineBindings bs
  | some column => brokenBindings layout bs column

theorem placed_atom (text : String) (place : Option Nat) : (atom text).placed layout place = text := by
  cases place <;> rfl

theorem placedArgs_nil (place : Option Nat) : placedArgs layout [] place = "" := by
  cases place <;> rfl

theorem placedArgs_cons (f : Form) (fs : List Form) (place : Option Nat) :
    placedArgs layout (f :: fs) place
      = gap place ++ f.placed layout place ++ placedArgs layout fs place := by
  cases place <;> rfl

theorem placedBindings_cons (binder : String) (value : Form) (rest : List (String × Form))
    (place : Option Nat) :
    placedBindings layout ((binder, value) :: rest) place
      = ("(" ++ binder ++ " "
          ++ value.placed layout (place.map (· + binder.utf8ByteSize + 2)) ++ ")")
        :: placedBindings layout rest place := by
  cases place <;> rfl

/-- Where a form is not broken it stands on one line. -/
theorem placed_of_breakAt_eq_none {f : Form} {place : Option Nat}
    (h : layout.breakAt f.oneLine place = none) : f.placed layout place = f.oneLine := by
  cases place with
  | none => rfl
  | some column =>
    refine broken_of_fits ?_
    simpa [Layout.breakAt] using h

theorem placed_call {head : String} {args : List Form} {place column : Option Nat}
    (h : layout.breakAt (call head args).oneLine place = column) :
    (call head args).placed layout place
      = "(" ++ head ++ placedArgs layout args (column.map (· + layout.indent)) ++ ")" := by
  cases column with
  | none => rw [placed_of_breakAt_eq_none layout h]; rfl
  | some column =>
    obtain ⟨rfl, hlong⟩ := Option.filter_eq_some_iff.mp h
    rw [placed, broken, if_neg (by simpa using hlong)]
    rfl

theorem placed_letIn {bindings : List (String × Form)} {body : Form} {place column : Option Nat}
    (h : layout.breakAt (letIn bindings body).oneLine place = column) :
    (letIn bindings body).placed layout place
      = "(let ("
        ++ (gap (column.map (· + bindingOffset))).intercalate
            (placedBindings layout bindings (column.map (· + bindingOffset)))
        ++ ")" ++ gap (column.map (· + layout.indent))
        ++ body.placed layout (column.map (· + layout.indent)) ++ ")" := by
  cases column with
  | none =>
    rw [placed_of_breakAt_eq_none layout h, oneLine, show ") " = ")" ++ " " from rfl,
      ← String.append_assoc]
    rfl
  | some column =>
    obtain ⟨rfl, hlong⟩ := Option.filter_eq_some_iff.mp h
    rw [placed, broken, if_neg (by simpa using hlong)]
    rfl

end Form

namespace Expr

open Piece (join marks)

variable {layout : Layout} {numbers : Numbers}

/-- A pass over identifiers that the table has leaves the table alone. -/
theorem snd_form_of_known {e : Expr} (h : ∀ i ∈ e.shownIdents, i.id ∈ numbers.seen) :
    (e.form .canonical numbers).2 = numbers := by
  rw [snd_form, Numbers.after_of_known h]

theorem snd_formsBindings_of_known {bs : List (Binder × Expr)}
    (h : ∀ i ∈ shownIdentsBindings bs, i.id ∈ numbers.seen) :
    (formsBindings .canonical bs numbers).2 = numbers := by
  rw [snd_formsBindings fun b _ => b.2.snd_form, Numbers.after_of_known h]

theorem join_piecesArgs {es : List Expr}
    (h : ∀ e ∈ es, (∀ i ∈ e.shownIdents, i.id ∈ numbers.seen) →
      ∀ place, join (e.pieces layout numbers place)
        = (e.form .canonical numbers).1.placed layout place)
    (hes : ∀ i ∈ shownIdentsAll es, i.id ∈ numbers.seen) (place : Option Nat) :
    join (piecesArgs layout numbers es place)
      = Form.placedArgs layout (forms .canonical es numbers).1 place := by
  induction es with
  | nil => cases place <;> rfl
  | cons e es ih =>
    have hknown : ∀ i ∈ e.shownIdents, i.id ∈ numbers.seen := fun i hi =>
      hes i (List.mem_append_left _ hi)
    have hrest := ih (fun e he => h e (List.mem_cons_of_mem _ he))
      fun i hi => hes i (List.mem_append_right _ hi)
    simp only [piecesArgs, forms, snd_form_of_known hknown, Form.placedArgs_cons, Piece.join_cons,
      Piece.join_append, List.cons_append, h e List.mem_cons_self hknown, hrest, Piece.shown_text,
      String.append_assoc]

theorem shown_piece (b : Binder) (numbers : Numbers) :
    (b.piece numbers).shown = (b.label .canonical numbers).1 := by
  cases b <;> rfl

theorem join_piecesBindings {bs : List (Binder × Expr)}
    (h : ∀ b ∈ bs, (∀ i ∈ b.2.shownIdents, i.id ∈ numbers.seen) →
      ∀ place, join (b.2.pieces layout numbers place)
        = (b.2.form .canonical numbers).1.placed layout place)
    (hbs : ∀ i ∈ shownIdentsBindings bs, i.id ∈ numbers.seen) (place : Option Nat) :
    (piecesBindings layout numbers bs place).map join
      = Form.placedBindings layout (formsBindings .canonical bs numbers).1 place := by
  induction bs with
  | nil => cases place <;> rfl
  | cons b bs ih =>
    obtain ⟨binder, e⟩ := b
    simp only [shownIdentsBindings, List.mem_append, or_imp, forall_and] at hbs
    obtain ⟨⟨hbinder, hvalue⟩, hrest⟩ := hbs
    have hlabel : (binder.label .canonical numbers).2 = numbers := by
      rw [snd_label, Numbers.after_of_known hbinder]
    have hothers := ih (fun b hb => h b (List.mem_cons_of_mem _ hb)) hrest
    have hfirst := h (binder, e) List.mem_cons_self hvalue
    simp only [piecesBindings, formsBindings, hlabel, snd_form_of_known hvalue, List.map_cons,
      Form.placedBindings_cons, Piece.join_cons, Piece.join_append, Piece.join_nil, List.cons_append,
      hfirst, hothers, shown_piece, Piece.shown_text, String.append_assoc, String.append_empty]

/-- **The pieces read as what is printed**, wherever the expression stands, as soon as the table has
its identifiers. -/
theorem join_pieces {e : Expr} : (∀ i ∈ e.shownIdents, i.id ∈ numbers.seen) →
    ∀ place, join (e.pieces layout numbers place)
      = (e.form .canonical numbers).1.placed layout place := by
  induction e with
  | lit v => intro _ place; rw [pieces, form, Form.placed_atom]; simp
  | name n => intro _ place; rw [pieces, form, Form.placed_atom]; simp
  | ref i => intro _ place; rw [pieces, form, Form.placed_atom]; simp [Piece.shown, Numbering.label]
  | call f args ih =>
    intro h place
    have hform : ((call f args).form .canonical numbers).1
        = .call f (forms .canonical args numbers).1 := rfl
    rw [pieces, flat_eq_oneLine, hform, Form.placed_call layout rfl]
    simp [join_piecesArgs ih h, String.append_assoc]
  | letIn bindings body ihb ih =>
    intro h place
    simp only [shownIdents, List.mem_append, or_imp, forall_and] at h
    obtain ⟨hbindings, hbody⟩ := h
    have hform : ((letIn bindings body).form .canonical numbers).1
        = .letIn (formsBindings .canonical bindings numbers).1 (body.form .canonical numbers).1 := by
      simp only [form, snd_formsBindings_of_known hbindings]
    rw [pieces, flat_eq_oneLine, hform, Form.placed_letIn layout rfl]
    simp [Piece.join_intercalate, join_piecesBindings ihb hbindings, ih hbody, String.append_assoc]
  -- a sequence and a choice have the forms of calls
  | seq items ih =>
    intro h place
    have hform : ((seq items).form .canonical numbers).1
        = .call "do" (forms .canonical items numbers).1 := rfl
    rw [pieces, flat_eq_oneLine, hform, Form.placed_call layout rfl]
    simp [join_piecesArgs ih h, ← String.append_assoc]
  | cond c t e ihc iht ihe =>
    intro h place
    simp only [shownIdents, List.mem_append, or_imp, forall_and] at h
    obtain ⟨⟨hc, ht⟩, he⟩ := h
    have hform : ((cond c t e).form .canonical numbers).1
        = .call "if" [(c.form .canonical numbers).1, (t.form .canonical numbers).1,
            (e.form .canonical numbers).1] := by
      simp only [form, snd_form_of_known hc, snd_form_of_known ht]
    rw [pieces, flat_eq_oneLine, hform, Form.placed_call layout rfl]
    simp [Form.placedArgs_cons, Form.placedArgs_nil, ihc hc, iht ht, ihe he, String.append_assoc]

/-! ## The identifiers among the pieces -/

theorem marks_piecesArgs {es : List Expr}
    (h : ∀ e ∈ es, ∀ place, marks (e.pieces layout numbers place)
      = e.shownIdents.map numbers.mark) (place : Option Nat) :
    marks (piecesArgs layout numbers es place) = (shownIdentsAll es).map numbers.mark := by
  induction es with
  | nil => rfl
  | cons e es ih =>
    have hrest := ih fun e he => h e (List.mem_cons_of_mem _ he)
    simp [piecesArgs, shownIdentsAll, h e List.mem_cons_self, hrest]

theorem marks_piecesBindings {bs : List (Binder × Expr)}
    (h : ∀ b ∈ bs, ∀ place, marks (b.2.pieces layout numbers place)
      = b.2.shownIdents.map numbers.mark) (place : Option Nat) :
    (piecesBindings layout numbers bs place).flatMap marks
      = (shownIdentsBindings bs).map numbers.mark := by
  induction bs with
  | nil => rfl
  | cons b bs ih =>
    obtain ⟨binder, e⟩ := b
    have hfirst := h (binder, e) List.mem_cons_self
    have hrest := ih fun b hb => h b (List.mem_cons_of_mem _ hb)
    cases binder with
    | name n => simp [piecesBindings, shownIdentsBindings, Binder.piece, Binder.idents, hfirst, hrest]
    | ident i =>
      simp [piecesBindings, shownIdentsBindings, Binder.piece, Binder.idents, Numbers.mark, hfirst,
        hrest]

/-- **Breaking lines moves no identifier.** Whatever the layout, the pieces have the identifiers of the
expression in the order in which it mentions them. -/
theorem marks_pieces (e : Expr) : ∀ place, marks (e.pieces layout numbers place)
    = e.shownIdents.map numbers.mark := by
  induction e with
  | lit v => intro place; rfl
  | name n => intro place; rfl
  | ref i => intro place; rfl
  | call f args ih => intro place; simp [pieces, shownIdents, marks_piecesArgs ih]
  | letIn bindings body ihb ih =>
    intro place
    simp [pieces, shownIdents, Piece.marks_intercalate, marks_piecesBindings ihb, ih]
  | seq items ih => intro place; simp [pieces, shownIdents, marks_piecesArgs ih]
  | cond c t e ihc iht ihe => intro place; simp [pieces, shownIdents, ihc, iht, ihe]

/-- The text of an expression in pieces, with the numbers of the table that printing it leaves. -/
def printed (e : Expr) (layout : Layout) : List Piece :=
  e.pieces layout (e.form .canonical {}).2 (some 0)

/-- The pieces read as the text that the printer prints, although its table has filled on the way. -/
theorem join_printed (e : Expr) {layout : Layout} (h : layout.numbering = .canonical) :
    join (e.printed layout) = e.render layout := by
  have hknown : ∀ i ∈ e.shownIdents, i.id ∈ (e.form .canonical {}).2.seen := by
    intro i hi
    rw [snd_form, Numbers.mem_seen_after]
    exact Or.inr (List.mem_map_of_mem hi)
  rw [printed, join_pieces hknown, (e.settles_form .canonical).again, render_eq_broken, h]
  rfl

theorem marks_printed (e : Expr) (layout : Layout) :
    marks (e.printed layout)
      = e.shownIdents.map (Numbers.after {} (e.shownIdents.map Ident.id)).mark := by
  rw [printed, marks_pieces, snd_form]

/-- **Canonical numbers count first appearances, in every layout.** The printed text is made of pieces
among which every identifier of the expression, reference or binder, has its place. Behind its hint
stands one more than there are different identifiers that appear in the text before it first does; so
identifiers with the same number are the same, and the numbers in use run from 1 to how many different
identifiers there are. -/
theorem render_numbers (e : Expr) (indent width : Nat) :
    let layout : Layout := { indent := indent, width := width, numbering := .canonical }
    let marks := Piece.marks (e.printed layout)
    let ids := marks.map fun mark => mark.1.id
    Piece.join (e.printed layout) = e.render layout
      ∧ marks.map Prod.fst = e.shownIdents
      ∧ (∀ mark ∈ marks, mark.2
        = 1 + (ids.toFinset.filter fun id => ids.idxOf id < ids.idxOf mark.1.id).card)
      ∧ (∀ mark ∈ marks, ∀ mark' ∈ marks, mark.2 = mark'.2 ↔ mark.1.id = mark'.1.id)
      ∧ ∀ m, (∃ mark ∈ marks, mark.2 = m) ↔ 1 ≤ m ∧ m ≤ ids.toFinset.card := by
  intro layout marks ids
  have hmarks : marks = e.shownIdents.map (Numbers.after {} (e.shownIdents.map Ident.id)).mark :=
    e.marks_printed layout
  have hids : ids = e.shownIdents.map Ident.id := by
    show marks.map _ = _
    rw [hmarks, List.map_map]
    rfl
  rw [← hids] at hmarks
  have hmark : ∀ mark ∈ marks, mark.1.id ∈ ids
      ∧ mark.2 = ((Numbers.after {} ids).number mark.1.id).1 := by
    intro mark hmem
    refine ⟨List.mem_map_of_mem hmem, ?_⟩
    rw [hmarks] at hmem
    obtain ⟨i, -, rfl⟩ := List.mem_map.mp hmem
    rfl
  have hseen : ∀ id ∈ ids, id ∈ (Numbers.after {} ids).seen := fun id hid =>
    Numbers.mem_seen_after.mpr (Or.inr hid)
  refine ⟨e.join_printed rfl, ?_, ?_, ?_, fun m => ?_⟩
  · rw [hmarks, List.map_map]
    exact List.map_id _
  · intro mark hmem
    obtain ⟨hid, hnumber⟩ := hmark mark hmem
    rw [hnumber, Numbers.number_after hid]
  · intro mark hmem mark' hmem'
    obtain ⟨hid, hnumber⟩ := hmark mark hmem
    obtain ⟨hid', hnumber'⟩ := hmark mark' hmem'
    rw [hnumber, hnumber', Numbers.number_inj (hseen _ hid) (hseen _ hid')]
  · rw [← Numbers.exists_number_eq]
    constructor
    · rintro ⟨mark, hmem, rfl⟩
      obtain ⟨hid, hnumber⟩ := hmark mark hmem
      exact ⟨mark.1.id, hid, hnumber.symm⟩
    · rintro ⟨id, hid, rfl⟩
      obtain ⟨mark, hmem, rfl⟩ := List.mem_map.mp hid
      exact ⟨mark, hmem, (hmark mark hmem).2⟩

/-- A value mentions an identifier that is bound only behind it, and one identifier has two hints. -/
theorem render_numbers_interleaved :
    let e : Expr := .letIn [(.ident ⟨9, "x"⟩, .ref ⟨4, "y"⟩), (.ident ⟨4, "y"⟩, .ref ⟨9, "x"⟩)]
      (.ref ⟨4, "z"⟩)
    let layout : Layout := { indent := 2, width := 20, numbering := .canonical }
    e.render layout = "(let ((x#1 y#2)\n      (y#2 x#1))\n  z#2)"
      ∧ Piece.join (e.printed layout) = e.render layout
      ∧ marks (e.printed layout)
        = [(⟨9, "x"⟩, 1), (⟨4, "y"⟩, 2), (⟨4, "y"⟩, 2), (⟨9, "x"⟩, 1), (⟨4, "z"⟩, 2)]
      ∧ (2 = 1 + ([9, 4, 4, 9, 4].toFinset.filter fun id : UInt64 =>
        [9, 4, 4, 9, 4].idxOf id < [9, 4, 4, 9, 4].idxOf 4).card) := by
  intro e layout
  have hmarks : marks (e.printed layout)
      = [(⟨9, "x"⟩, 1), (⟨4, "y"⟩, 2), (⟨4, "y"⟩, 2), (⟨9, "x"⟩, 1), (⟨4, "z"⟩, 2)] := by rfl
  obtain ⟨hjoin, -, hnumber, -⟩ := e.render_numbers 2 20
  have hlast := hnumber (⟨4, "z"⟩, 2) (by rw [hmarks]; simp)
  rw [hmarks] at hlast
  exact ⟨by decide, hjoin, hmarks, hlast⟩

end Expr

end Hygiene
