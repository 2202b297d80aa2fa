import Hygiene.Proofs.Layout.Marking
import Hygiene.Proofs.Text.Joining

/-!
# The parts of a printed expression

A printed expression is what opens it, then its parts with what stands between them, and a bracket.
When it is broken at a column the parts have columns as well, and line breaks stand between them.
`Expr.slots` lists the parts with their columns and what stands around them, as the printer passes the
columns on. A table that knows every identifier of the whole (`Expr.Known`) stays what it is from part
to part, so the parts can be read under one table.

* `Expr.textAt_eq_slots`: the text of an expression, put together from its slots.
* `Expr.starts_slots`: a part starts on a line of its own, as far to the right as `Expr.lineIndent`
  says. Only the first binding of a `letIn` stands right behind what opens the expression.
-/

namespace Hygiene

open Text (Word)

/-! ## Parts -/

namespace Expr

/-- The expressions right inside an expression, from left to right. Those of a `letIn` are the values
of its bindings, then its body. -/
def parts : Expr → List Expr
  | lit _ | name _ | ref _ => []
  | call _ args => args
  | seq items => items
  | cond c t e => [c, t, e]
  | letIn bindings body => bindings.map Prod.snd ++ [body]

/-- Induction on an expression with a hypothesis for every part. -/
theorem inductParts {motive : Expr → Prop}
    (step : ∀ e : Expr, (∀ part ∈ e.parts, motive part) → motive e) (e : Expr) : motive e := by
  induction e with
  | lit v => exact step _ fun part hpart => by cases hpart
  | name n => exact step _ fun part hpart => by cases hpart
  | ref i => exact step _ fun part hpart => by cases hpart
  | call f args ih => exact step _ ih
  | seq items ih => exact step _ ih
  | cond c t e ihc iht ihe =>
    refine step _ fun part hpart => ?_
    simp only [parts, List.mem_cons, List.not_mem_nil, or_false] at hpart
    rcases hpart with rfl | rfl | rfl
    · exact ihc
    · exact iht
    · exact ihe
  | letIn bindings body ihb ih =>
    refine step _ fun part hpart => ?_
    rcases List.mem_append.mp hpart with hvalue | hbody
    · obtain ⟨b, hb, rfl⟩ := List.mem_map.mp hvalue
      exact ihb b hb
    · rw [List.mem_singleton.mp hbody]
      exact ih

/-- The expression that a path of part numbers leads to. -/
def sub? (e : Expr) : (path : List Nat) → Option Expr
  | [] => some e
  | k :: path => e.parts[k]?.bind fun part => part.sub? path

/-! ## What the table knows -/

/-- The table has all that an expression shows, so that showing it adds nothing. -/
def Known (numbering : Numbering) (numbers : Numbers) (e : Expr) : Prop :=
  (e.form numbering numbers).2 = numbers

end Expr

theorem Numbers.Extends.antisymm {a b : Numbers} (h : a.Extends b) (k : b.Extends a) : a = b := by
  have hseen : b.seen = a.seen := List.IsPrefix.eq_of_length_le h (List.IsPrefix.length_le k)
  cases a
  cases b
  exact congrArg _ hseen.symm

/-- Of two passes that add nothing between them, neither adds anything. -/
theorem Numbers.eq_of_eq_between {numbers first last : Numbers} (hfirst : first.Extends numbers)
    (hlast : last.Extends first) (h : last = numbers) : first = numbers := by
  subst h
  exact hlast.antisymm hfirst |>.symm

namespace Expr

variable {numbering : Numbering} {numbers : Numbers}

theorem grows_form (e : Expr) (numbers : Numbers) : (e.form numbering numbers).2.Extends numbers :=
  (settles_form numbering e).grows numbers

theorem forms_of_known {es : List Expr} (h : (forms numbering es numbers).2 = numbers) :
    (∀ e ∈ es, e.Known numbering numbers)
      ∧ (forms numbering es numbers).1 = es.map fun e => (e.form numbering numbers).1 := by
  induction es with
  | nil => exact ⟨List.forall_mem_nil _, rfl⟩
  | cons e es ih =>
    have hfirst : e.Known numbering numbers :=
      Numbers.eq_of_eq_between (e.grows_form numbers)
        ((settles_forms fun e _ => e.settles_form numbering).grows _) h
    have hforms : forms numbering (e :: es) numbers
        = ((e.form numbering numbers).1 :: (forms numbering es numbers).1,
            (forms numbering es numbers).2) := by
      rw [Known] at hfirst
      simp only [forms, hfirst]
    rw [hforms] at h ⊢
    obtain ⟨hknown, hmap⟩ := ih h
    exact ⟨List.forall_mem_cons.mpr ⟨hfirst, hknown⟩, by rw [hmap]; rfl⟩

theorem formsBindings_of_known {bs : List (Binder × Expr)}
    (h : (formsBindings numbering bs numbers).2 = numbers) :
    (∀ b ∈ bs, b.2.Known numbering numbers)
      ∧ (formsBindings numbering bs numbers).1
          = bs.map fun b => ((b.1.label numbering numbers).1, (b.2.form numbering numbers).1) := by
  induction bs with
  | nil => exact ⟨List.forall_mem_nil _, rfl⟩
  | cons b bs ih =>
    obtain ⟨binder, e⟩ := b
    have hothers (numbers : Numbers) : (formsBindings numbering bs numbers).2.Extends numbers :=
      (settles_formsBindings fun b _ => b.2.settles_form numbering).grows numbers
    have hlabel : (binder.label numbering numbers).2 = numbers :=
      Numbers.eq_of_eq_between ((binder.settles_label numbering).grows numbers)
        ((hothers _).trans (e.grows_form _)) h
    have hvalue : e.Known numbering numbers := by
      refine Numbers.eq_of_eq_between (e.grows_form numbers) (hothers _) ?_
      simpa only [formsBindings, hlabel] using h
    have hforms : formsBindings numbering ((binder, e) :: bs) numbers
        = (((binder.label numbering numbers).1, (e.form numbering numbers).1)
            :: (formsBindings numbering bs numbers).1, (formsBindings numbering bs numbers).2) := by
      rw [Known] at hvalue
      simp only [formsBindings, hlabel, hvalue]
    rw [hforms] at h ⊢
    obtain ⟨hknown, hmap⟩ := ih h
    exact ⟨List.forall_mem_cons.mpr ⟨hvalue, hknown⟩, by rw [hmap]; rfl⟩

theorem letIn_of_known {bindings : List (Binder × Expr)} {body : Expr}
    (h : (letIn bindings body).Known numbering numbers) :
    (formsBindings numbering bindings numbers).2 = numbers ∧ body.Known numbering numbers := by
  have hbindings : (formsBindings numbering bindings numbers).2 = numbers :=
    Numbers.eq_of_eq_between
      ((settles_formsBindings fun b _ => b.2.settles_form numbering).grows numbers)
      (body.grows_form _) h
  refine ⟨hbindings, ?_⟩
  simpa only [Known, form, hbindings] using h

theorem cond_of_known {c t e : Expr} (h : (cond c t e).Known numbering numbers) :
    (forms numbering [c, t, e] numbers).2 = numbers := h

/-- What the whole adds nothing to, no part adds anything to. -/
theorem Known.part {e part : Expr} (h : e.Known numbering numbers) (hpart : part ∈ e.parts) :
    part.Known numbering numbers := by
  cases e with
  | lit v => cases hpart
  | name n => cases hpart
  | ref i => cases hpart
  | call f args => exact (forms_of_known h).1 part hpart
  | seq items => exact (forms_of_known h).1 part hpart
  | cond c t e => exact (forms_of_known (cond_of_known h)).1 part hpart
  | letIn bindings body =>
    obtain ⟨hbindings, hbody⟩ := letIn_of_known h
    rcases List.mem_append.mp hpart with hvalue | hlast
    · obtain ⟨b, hb, rfl⟩ := List.mem_map.mp hvalue
      exact (formsBindings_of_known hbindings).1 b hb
    · rw [List.mem_singleton.mp hlast]
      exact hbody

end Expr

/-! ## Parts with what stands between them -/

/-- A part of an expression, with what stands between the part before and it. -/
structure Slot where
  /-- The space or line break in front, perhaps behind a closing bracket. -/
  front : String
  /-- A binder with its bracket, in front of the value of a binding. -/
  opens : String
  part : Expr
  /-- The column of the part, unless it stands inside a line. -/
  place : Option Nat
  /-- The bracket that closes a binding. -/
  closes : String

namespace Expr

open Layout (gap bindingOffset)

section

variable (layout : Layout) (numbers : Numbers)

/-- The text of an expression at a column, or inside a line. -/
def textAt (e : Expr) : (place : Option Nat) → String
  | none => (e.flat layout.numbering numbers).1
  | some column => (e.pretty layout column numbers).1

/-- What stands in front of the parts of an expression and of what separates them. -/
def opening : Expr → String
  | lit _ | name _ | ref _ => ""
  | call f _ => "(" ++ f
  | seq _ => "(do"
  | cond _ _ _ => "(if"
  | letIn _ _ => "(let ("

/-- Arguments, each behind a gap. -/
def argSlots (place : Option Nat) (args : List Expr) : List Slot :=
  args.map fun arg => { front := gap place, opens := "", part := arg, place, closes := "" }

/-- A binding that starts at a place; its value stands behind the binder. -/
def valueSlot (front : String) (place : Option Nat) (b : Binder × Expr) : Slot :=
  let opens := "(" ++ (b.1.label layout.numbering numbers).1 ++ " "
  { front, opens, part := b.2, place := place.map (· + opens.utf8ByteSize), closes := ")" }

/-- Bindings under each other: the first one right where it is, the others each behind a gap. -/
def bindingSlots (place : Option Nat) : List (Binder × Expr) → List Slot
  | [] => []
  | b :: rest =>
    valueSlot layout numbers "" place b :: rest.map (valueSlot layout numbers (gap place) place)

/-- The parts of an expression that is broken at a column, or not broken. -/
def slots (e : Expr) (column : Option Nat) : List Slot :=
  let inner := column.map (· + layout.indent)
  match e with
  | lit _ | name _ | ref _ => []
  | call _ args => argSlots inner args
  | seq items => argSlots inner items
  | cond c t e => argSlots inner [c, t, e]
  | letIn bindings body =>
    bindingSlots layout numbers (column.map (· + bindingOffset)) bindings
      ++ [{ front := ")" ++ gap inner, opens := "", part := body, place := inner, closes := "" }]

end

end Expr

/-- The text of a part and of what stands around it. -/
def Slot.text (layout : Layout) (numbers : Numbers) (slot : Slot) : String :=
  slot.front ++ slot.opens ++ slot.part.textAt layout numbers slot.place ++ slot.closes

namespace Expr

open Layout (gap bindingOffset)

variable {layout : Layout} {numbers : Numbers}

theorem map_part_slots (layout : Layout) (numbers : Numbers) (e : Expr) (column : Option Nat) :
    (e.slots layout numbers column).map Slot.part = e.parts := by
  cases e with
  | lit v => rfl
  | name n => rfl
  | ref i => rfl
  | call f args => simp [slots, argSlots, parts, Function.comp_def]
  | seq items => simp [slots, argSlots, parts, Function.comp_def]
  | cond c t e => rfl
  | letIn bindings body =>
    cases bindings with
    | nil => rfl
    | cons b rest => simp [slots, bindingSlots, valueSlot, parts, Function.comp_def]

theorem textAt_eq_placed (e : Expr) (place : Option Nat) :
    e.textAt layout numbers place = (e.form layout.numbering numbers).1.placed layout place := by
  cases place with
  | none => rw [textAt, flat_eq_oneLine]; rfl
  | some column => rw [textAt, pretty_eq_broken]; rfl

theorem join_argSlots (args : List Expr) (place : Option Nat) :
    Form.placedArgs layout (args.map fun e => (e.form layout.numbering numbers).1) place
      = String.join ((argSlots place args).map (Slot.text layout numbers)) := by
  induction args with
  | nil => exact Form.placedArgs_nil layout place
  | cons arg args ih =>
    rw [List.map_cons, Form.placedArgs_cons, ih]
    simp [argSlots, Slot.text, textAt_eq_placed]

theorem intercalate_cons_map {α : Type} (gap first : String) (text : α → String) (rest : List α) :
    gap.intercalate (first :: rest.map text)
      = first ++ String.join (rest.map fun a => gap ++ text a) := by
  induction rest generalizing first with
  | nil => simp
  | cons a rest ih =>
    rw [List.map_cons, String.intercalate_cons_cons, ih, List.map_cons, String.join_cons]
    simp only [String.append_assoc]

theorem place_valueSlot (front : String) (place : Option Nat) (b : Binder × Expr) :
    (valueSlot layout numbers front place b).place
      = place.map (· + (b.1.label layout.numbering numbers).1.utf8ByteSize + 2) := by
  have hsize (label : String) : ("(" ++ label ++ " ").utf8ByteSize = label.utf8ByteSize + 2 := by
    rw [String.utf8ByteSize_append, String.utf8ByteSize_append]
    show 1 + label.utf8ByteSize + 1 = _
    omega
  simp only [valueSlot, hsize, Nat.add_assoc]

theorem join_bindingSlots (bindings : List (Binder × Expr)) (place : Option Nat) :
    (gap place).intercalate (Form.placedBindings layout
        (bindings.map fun b => ((b.1.label layout.numbering numbers).1,
          (b.2.form layout.numbering numbers).1)) place)
      = String.join ((bindingSlots layout numbers place bindings).map (Slot.text layout numbers)) := by
  have hplaced : Form.placedBindings layout
      (bindings.map fun b => ((b.1.label layout.numbering numbers).1,
        (b.2.form layout.numbering numbers).1)) place
      = bindings.map fun b => (valueSlot layout numbers "" place b).text layout numbers := by
    induction bindings with
    | nil => cases place <;> rfl
    | cons b rest ih =>
      rw [List.map_cons, Form.placedBindings_cons, ih, List.map_cons, Slot.text, textAt_eq_placed,
        place_valueSlot]
      simp only [valueSlot, String.empty_append]
  rw [hplaced]
  cases bindings with
  | nil => rfl
  | cons b rest =>
    rw [List.map_cons, intercalate_cons_map]
    simp [bindingSlots, valueSlot, Slot.text, Function.comp_def, String.append_assoc]

/-- **A text comes apart into the parts**: what opens the expression, the parts with what stands
between them, and a bracket. -/
theorem textAt_eq_slots {e : Expr} (h : e.Known layout.numbering numbers) (hparts : e.parts ≠ [])
    (place : Option Nat) :
    e.textAt layout numbers place
      = e.opening
        ++ String.join ((e.slots layout numbers
            (layout.breakAt (e.flat layout.numbering numbers).1 place)).map
              (Slot.text layout numbers))
        ++ ")" := by
  rw [textAt_eq_placed, flat_eq_oneLine]
  cases e with
  | lit v => exact absurd rfl hparts
  | name n => exact absurd rfl hparts
  | ref i => exact absurd rfl hparts
  | call f args =>
    have hform : ((call f args).form layout.numbering numbers).1
        = .call f (args.map fun e => (e.form layout.numbering numbers).1) :=
      congrArg (Form.call f) (forms_of_known h).2
    rw [hform, Form.placed_call layout rfl, join_argSlots]
    rfl
  | seq items =>
    have hform : ((seq items).form layout.numbering numbers).1
        = .call "do" (items.map fun e => (e.form layout.numbering numbers).1) :=
      congrArg (Form.call "do") (forms_of_known h).2
    rw [hform, Form.placed_call layout rfl, join_argSlots]
    rfl
  | cond c t e =>
    have hform : ((cond c t e).form layout.numbering numbers).1
        = .call "if" ([c, t, e].map fun e => (e.form layout.numbering numbers).1) :=
      congrArg (Form.call "if") (forms_of_known (cond_of_known h)).2
    rw [hform, Form.placed_call layout rfl, join_argSlots]
    rfl
  | letIn bindings body =>
    obtain ⟨hbindings, hbody⟩ := letIn_of_known h
    have hform : ((letIn bindings body).form layout.numbering numbers).1
        = .letIn (bindings.map fun b => ((b.1.label layout.numbering numbers).1,
            (b.2.form layout.numbering numbers).1)) (body.form layout.numbering numbers).1 := by
      simp only [form, hbindings, (formsBindings_of_known hbindings).2]
    rw [hform, Form.placed_letIn layout rfl, join_bindingSlots]
    simp [slots, Slot.text, textAt_eq_placed, opening, String.append_assoc]

/-! ## Where a part starts -/

/-- How much further to the right than a broken expression the line starts that a part of it is on. The
first binding of a `letIn` starts no line. -/
def lineIndent (layout : Layout) : Expr → (k : Nat) → Option Nat
  | letIn bindings _, k =>
    if k < bindings.length then if k = 0 then none else some bindingOffset
    else some layout.indent
  | _, _ => some layout.indent

/-- How the part with number `k` starts, of an expression that is broken at a column or not at all. -/
inductive Starts (layout : Layout) (e : Expr) (column : Option Nat) (k : Nat) (slot : Slot) : Prop where
  /-- Right behind what opens the expression. -/
  | behind (line : e.lineIndent layout k = none) (first : k = 0) (front : slot.front = "")
    (place : slot.place = column.map (· + (e.opening.utf8ByteSize + slot.opens.utf8ByteSize)))
  /-- Behind a gap, which is a line break when the expression is broken. -/
  | below (indent : Nat) (closing : String) (line : e.lineIndent layout k = some indent)
    (word : Word closing) (front : slot.front = closing ++ gap (column.map (· + indent)))
    (place : slot.place = column.map (· + (indent + slot.opens.utf8ByteSize)))

theorem starts_arg {e : Expr} {column : Option Nat} {k : Nat} {slot : Slot} {args : List Expr}
    (hline : e.lineIndent layout k = some layout.indent)
    (h : (argSlots (column.map (· + layout.indent)) args)[k]? = some slot) :
    e.Starts layout column k slot := by
  rw [argSlots, List.getElem?_map] at h
  obtain ⟨arg, -, rfl⟩ := Option.map_eq_some_iff.mp h
  exact .below layout.indent "" hline (by decide) (String.empty_append).symm rfl

theorem starts_slots {e : Expr} {column : Option Nat} {k : Nat} {slot : Slot}
    (h : (e.slots layout numbers column)[k]? = some slot) : e.Starts layout column k slot := by
  cases e with
  | lit v => cases h
  | name n => cases h
  | ref i => cases h
  | call f args => exact starts_arg rfl h
  | seq items => exact starts_arg rfl h
  | cond c t e => exact starts_arg rfl h
  | letIn bindings body =>
    have hvalue (b : Binder × Expr) (front : String) :
        (valueSlot layout numbers front (column.map (· + bindingOffset)) b).place
          = column.map (· + (bindingOffset
            + (valueSlot layout numbers front (column.map (· + bindingOffset)) b).opens.utf8ByteSize))
        := by
      simp only [valueSlot, Option.map_map, Function.comp_def, Nat.add_assoc]
    cases bindings with
    | nil =>
      cases k with
      | zero =>
        obtain rfl := Option.some.inj h
        exact .below layout.indent ")" rfl (by decide) rfl rfl
      | succ k => cases h
    | cons b rest =>
      cases k with
      | zero =>
        obtain rfl := Option.some.inj h
        exact .behind rfl rfl rfl (hvalue b "")
      | succ k =>
        have hline : (letIn (b :: rest) body).lineIndent layout (k + 1)
            = if k < rest.length then some bindingOffset else some layout.indent := by
          simp [lineIndent]
        replace h : (rest.map (valueSlot layout numbers (gap (column.map (· + bindingOffset)))
            (column.map (· + bindingOffset))) ++ _)[k]? = some slot := h
        rcases Nat.lt_or_ge k rest.length with hk | hk
        · rw [List.getElem?_append_left (by rwa [List.length_map]), List.getElem?_map] at h
          obtain ⟨b', -, rfl⟩ := Option.map_eq_some_iff.mp h
          exact .below bindingOffset "" (by rw [hline, if_pos hk]) (by decide)
            String.empty_append.symm (hvalue b' _)
        · rw [List.getElem?_append_right (by rwa [List.length_map])] at h
          obtain rfl := List.mem_singleton.mp (List.mem_of_getElem? h)
          exact .below layout.indent ")" (by rw [hline, if_neg (by omega)]) (by decide) rfl rfl

/-- Whatever has parts has one that starts a line of its own when it is broken. -/
theorem exists_lineIndent (layout : Layout) {e : Expr} (h : e.parts ≠ []) :
    ∃ k < e.parts.length, e.lineIndent layout k = some layout.indent := by
  have hpos : 0 < e.parts.length := List.length_pos_iff.mpr h
  cases e with
  | lit v => exact absurd rfl h
  | name n => exact absurd rfl h
  | ref i => exact absurd rfl h
  | call f args => exact ⟨0, hpos, rfl⟩
  | seq items => exact ⟨0, hpos, rfl⟩
  | cond c t e => exact ⟨0, hpos, rfl⟩
  | letIn bindings body => exact ⟨bindings.length, by simp [parts], by simp [lineIndent]⟩

end Expr

end Hygiene
