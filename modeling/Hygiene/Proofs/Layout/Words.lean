import Hygiene.Proofs.Layout.Breaking
import Hygiene.Proofs.Value.Reading

/-!
# Words and literals in code

The smallest parts of printed code are the words that people choose, identifiers, which have a number
behind a `#`, and literals. As long as no `#` and nothing that means something in code stands in a word
(`Text.Plain`), one kind is not taken for another: identifiers are told apart from names by the `#`
(`Ident.ne_text_of_plain`) and from each other by the number (`Ident.beq_of_text_eq`), and a word is a
literal only if it is the word of `nil`, of a boolean or of an integer (`Value.literal_ne_word`).

> `Value.reads_literal`: a literal is read in one way only, with the quote that a list has in front.
-/

namespace Hygiene

open Text (Ends Solid Reads opening opens)

namespace Text

/-- Text without a space, a bracket, a quotation mark or a `#`, so that it is one word in code and no
identifier. Other white space and single quotes do no harm. -/
def Plain (s : String) : Prop :=
  ∀ c ∈ s.toList, c ∉ [' ', '(', ')', '[', ']', '"', '#']

instance (s : String) : Decidable (Plain s) :=
  List.decidableBAll (fun c => c ∉ [' ', '(', ')', '[', ']', '"', '#']) s.toList

namespace Plain

theorem solid {s : String} (h : Plain s) : Solid s.toList := by
  intro c hc
  have hmarks := h c hc
  simp only [List.mem_cons, List.not_mem_nil, or_false, not_or] at hmarks
  simp [delimits, opens, hmarks]

theorem hash_not_mem {s : String} (h : Plain s) : '#' ∉ s.toList := by
  intro hmem
  exact h _ hmem (by decide)

end Plain

end Text

namespace Ident

theorem plain_displayHint {i : Ident} (h : Text.Plain i.hint) : Text.Plain i.displayHint := by
  unfold displayHint
  split
  · decide
  · exact h

theorem toList_text (i : Ident) :
    i.text.toList = i.displayHint.toList ++ '#' :: i.id.toNat.repr.toList := by
  simp [text, labelled]

theorem hash_mem_text (i : Ident) : '#' ∈ i.text.toList := by
  rw [toList_text]
  exact List.mem_append_right _ List.mem_cons_self

theorem solid_text {i : Ident} (h : Text.Plain i.hint) : Solid i.text.toList := by
  rw [toList_text]
  exact (plain_displayHint h).solid.append
    (Solid.append (w := ['#']) (by decide) (Text.solid_repr i.id.toNat))

/-- Plain text is never an identifier. -/
theorem ne_text_of_plain {s : String} (h : Text.Plain s) (i : Ident) : s ≠ i.text := by
  rintro rfl
  exact h.hash_not_mem i.hash_mem_text

/-- The number stands behind the only `#`. -/
theorem beq_of_text_eq {i j : Ident} (hi : Text.Plain i.hint) (hj : Text.Plain j.hint)
    (h : i.text = j.text) : (i == j) = true := by
  have hlist : i.displayHint.toList ++ '#' :: i.id.toNat.repr.toList
      = j.displayHint.toList ++ '#' :: j.id.toNat.repr.toList := by
    rw [← toList_text, ← toList_text, h]
  obtain ⟨-, hnumber⟩ := Text.append_cons_inj (plain_displayHint hi).hash_not_mem
    (plain_displayHint hj).hash_not_mem hlist
  have hid : i.id.toNat = j.id.toNat := Text.repr_inj (String.toList_inj.mp hnumber)
  exact beq_iff.mpr (UInt64.toNat_inj.mp hid)

end Ident

namespace Binder

theorem solid_label {b : Binder} (h : Text.Plain b.word) (numbers : Numbers) :
    Solid (b.label .global numbers).1.toList := by
  cases b with
  | name n => exact h.solid
  | ident i => exact Ident.solid_text h

/-- Binders with the same text are the same: an identifier has a `#` in it and a name has none. -/
theorem beq_of_label_eq {b c : Binder} (hb : Text.Plain b.word) (hc : Text.Plain c.word)
    {numbers numbers' : Numbers}
    (h : (b.label .global numbers).1 = (c.label .global numbers').1) : (b == c) = true := by
  cases b with
  | name n =>
    cases c with
    | name m =>
      have hsame : n = m := h
      rw [name_beq_name, hsame, beq_self_eq_true]
    | ident j => exact absurd h (j.ne_text_of_plain hb)
  | ident i =>
    cases c with
    | name m => exact absurd h.symm (i.ne_text_of_plain hc)
    | ident j => exact Ident.beq_of_text_eq hb hc h

end Binder

/-! ## Literals -/

namespace Value

theorem literal_of_list {v : Value} (h : v.opener = some '(') : v.literal = "'" ++ v.text := by
  cases v with
  | list items => rfl
  | _ => simp [opener] at h

theorem literal_of_not_list {v : Value} (h : v.opener ≠ some '(') : v.literal = v.text := by
  cases v with
  | list items => exact absurd rfl h
  | _ => rfl

/-- A literal that opens something is no word, whatever stands behind either. -/
theorem word_ne_literal {w : List Char} (hw : Solid w) {v : Value} (hv : v.opener ≠ none)
    {r s : List Char} (hr : Ends r) (hs : Ends s) : w ++ r ≠ v.literal.toList ++ s := by
  intro h
  by_cases hlist : v.opener = some '('
  · have hquote : w ++ r = '\'' :: (v.text.toList ++ s) := by
      rw [h, literal_of_list hlist]
      simp
    -- the quote could begin a word, but no word has a parenthesis behind its first character
    cases w with
    | nil =>
      rw [List.nil_append] at hquote
      rw [hquote] at hr
      rcases hr with hr | hr | hr <;> exact absurd hr (by decide)
    | cons c w =>
      have hbehind : w ++ r = v.text.toList ++ s := (List.cons.inj hquote).2
      have hsolid : Solid w := fun d hd => hw d (List.mem_cons_of_mem c hd)
      apply hv
      rw [← opening_text v hs, ← hbehind, hsolid.opening_append hr]
  · apply hv
    rw [← opening_text v hs, ← literal_of_not_list hlist, ← h, hw.opening_append hr]

/-- The quote tells a list from everything else. -/
theorem literal_list_ne {v w : Value} (hv : v.opener = some '(') (hw : w.opener ≠ some '(')
    {r s : List Char} (hr : Ends r) (hs : Ends s) :
    v.literal.toList ++ r ≠ w.literal.toList ++ s := by
  intro h
  have hword : w.opener = none := by
    rw [← opening_text w hs, ← literal_of_not_list hw, ← h, literal_of_list hv]
    simp [opens]
  rw [literal_of_not_list hw] at h
  exact word_ne_literal (solid_text hword) (by simp [hv]) hs hr h.symm

/-- **The literal of a value is read in one way only.** -/
theorem reads_literal (v : Value) : Reads literal (fun _ => True) v := by
  intro w _ r s hr hs h
  by_cases hv : v.opener = some '('
  · by_cases hw : w.opener = some '('
    · refine v.reads_text w trivial r s hr hs ?_
      simpa [literal_of_list hv, literal_of_list hw] using h
    · exact absurd h (literal_list_ne hv hw hr hs)
  · by_cases hw : w.opener = some '('
    · exact absurd h.symm (literal_list_ne hw hv hs hr)
    · rw [literal_of_not_list hv, literal_of_not_list hw] at h
      exact v.reads_text w trivial r s hr hs h

theorem literal_inj {v w : Value} (h : v.literal = w.literal) : v = w := by
  have hnothing : v.literal.toList ++ [] = w.literal.toList ++ [] := by rw [h]
  exact (v.reads_literal w trivial [] [] trivial trivial hnothing).1

/-- A word is a literal only if it is the literal of `nil`, a boolean or an integer. -/
theorem literal_ne_word {t : String} (ht : Solid t.toList) (hwords : t ∉ ["nil", "true", "false"])
    (hnumeral : ∀ n : Int64, t ≠ Text.decimal n.toInt) (v : Value) : v.literal ≠ t := by
  rintro rfl
  have hopener : v.opener = none := by
    by_contra hopens
    exact word_ne_literal ht hopens (r := []) (s := []) trivial trivial rfl
  cases v with
  | nil => exact hwords (by decide)
  | bool b => cases b <;> exact hwords (by decide)
  | int n => exact hnumeral n rfl
  | _ => cases hopener

end Value

/-- No literal is written like an identifier. -/
theorem Ident.literal_ne_text {i : Ident} (h : Text.Plain i.hint) (v : Value) :
    v.literal ≠ i.text := by
  refine Value.literal_ne_word (solid_text h) ?_ (fun n => ?_) v
  · intro hword
    have hplain : ∀ t ∈ ["nil", "true", "false"], Text.Plain t := by decide
    exact i.ne_text_of_plain (hplain _ hword) rfl
  · exact Text.ne_decimal i.hash_mem_text (by decide) n.toInt

end Hygiene
