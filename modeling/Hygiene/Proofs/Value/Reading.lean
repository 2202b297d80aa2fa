import Hygiene.Proofs.Text.Reading
import Hygiene.Value.Printing

/-!
# The text of a value is faithful

Values are written without a note of their kind, so kind and contents have to show in the text. They
do: `nil`, booleans and integers are words, each another one (`eq_of_text_eq`), and strings, vectors
and lists each begin with a character of their own (`opening_text`). What a sequence holds can be told
apart because its items can (`Text.separated_inj`), by induction on the nesting.

> `Value.text_faithful`: two values with the same text are the same value, also when other text stands
> behind them, and two sequences whose items are written the same have the same items.
-/

namespace Hygiene.Value

open Text (Ends Closes Solid Reads opening opens)

/-- Induction on a value, with a hypothesis for every item of a sequence. -/
@[induction_eliminator]
theorem induct {motive : Value → Prop}
    (nil : motive .nil) (bool : ∀ b, motive (.bool b)) (int : ∀ n, motive (.int n))
    (str : ∀ s, motive (.str s)) (vector : ∀ items, (∀ v ∈ items, motive v) → motive (.vector items))
    (list : ∀ items, (∀ v ∈ items, motive v) → motive (.list items)) (v : Value) : motive v := by
  refine @Value.rec motive (fun vs => ∀ v ∈ vs, motive v) nil bool int str vector list ?_ ?_ v
  · intro v hv
    cases hv
  · intro v vs hv hvs w hw
    rcases List.mem_cons.mp hw with rfl | hw
    · exact hv
    · exact hvs w hw

/-! ## What a text begins with -/

/-- The character that the text of a value is opened by, if it is no word. -/
def opener : Value → Option Char
  | nil | bool _ | int _ => none
  | str _ => some '"'
  | vector _ => some '['
  | list _ => some '('

/-- A value that opens nothing is written as a word. -/
theorem solid_text {v : Value} (h : v.opener = none) : Solid v.text.toList := by
  cases v with
  | nil => decide
  | bool b => cases b <;> decide
  | int n => exact Text.solid_decimal n.toInt
  | str s => cases h
  | vector items => cases h
  | list items => cases h

theorem opening_text (v : Value) {r : List Char} (hr : Ends r) :
    opening (v.text.toList ++ r) = v.opener := by
  cases v with
  | nil => exact (solid_text rfl).opening_append hr
  | bool b => exact (solid_text rfl).opening_append hr
  | int n => exact (solid_text rfl).opening_append hr
  | str s => simp [text, opener, opens]
  | vector items => simp [text, opener, opens]
  | list items => simp [text, opener, opens]

theorem opener_eq {v w : Value} {r s : List Char} (hr : Ends r) (hs : Ends s)
    (h : v.text.toList ++ r = w.text.toList ++ s) : v.opener = w.opener := by
  rw [← opening_text v hr, h, opening_text w hs]

/-- No value is written as nothing, or begins like what may stand behind one. -/
theorem not_ends_text (v : Value) : ¬ Ends v.text.toList := by
  cases v with
  | nil => decide
  | bool b => cases b <;> decide
  | int n => exact (Text.solid_decimal n.toInt).not_ends (Text.decimal_ne_empty n.toInt)
  | str s => simp [text, Ends]
  | vector items => simp [text, Ends]
  | list items => simp [text, Ends]

/-- The words that stand for values are all different. -/
theorem eq_of_text_eq {v w : Value} (hv : v.opener = none) (hw : w.opener = none)
    (h : v.text = w.text) : v = w := by
  have hnil : ∀ n : Int64, nil.text ≠ (int n).text := fun n =>
    Text.ne_decimal (c := 'n') (by decide) (by decide) n.toInt
  have hbool : ∀ (b : Bool) (n : Int64), (bool b).text ≠ (int n).text := fun b n =>
    Text.ne_decimal (c := 'e') (by cases b <;> decide) (by decide) n.toInt
  cases v with
  | nil =>
    cases w with
    | nil => rfl
    | bool b => cases b <;> exact absurd h (by decide)
    | int n => exact absurd h (hnil n)
    | _ => cases hw
  | bool a =>
    cases w with
    | nil => cases a <;> exact absurd h (by decide)
    | bool b =>
      cases a <;> cases b
      · rfl
      · exact absurd h (by decide)
      · exact absurd h (by decide)
      · rfl
    | int n => exact absurd h (hbool a n)
    | _ => cases hw
  | int n =>
    cases w with
    | nil => exact absurd h.symm (hnil n)
    | bool b => exact absurd h.symm (hbool b n)
    | int m => rw [Int64.toInt_inj.mp (Text.decimal_inj h)]
    | _ => cases hw
  | _ => cases hv

/-! ## Reading values -/

/-- A value that is written as a word can be read. -/
theorem reads_word {v : Value} (hv : v.opener = none) : Reads text (fun _ => True) v := by
  intro w _ r s hr hs h
  have hw : w.opener = none := by rw [← opener_eq hr hs h, hv]
  obtain ⟨htext, hrest⟩ := (solid_text hv).append_inj (solid_text hw) hr hs h
  exact ⟨eq_of_text_eq hv hw (String.toList_inj.mp htext), hrest⟩

/-- Items that can be read can be read between brackets, up to the bracket that closes them. -/
theorem texts_inj {xs ys : List Value} {close : Char} (hclose : Closes close)
    (hxs : ∀ v ∈ xs, Reads text (fun _ => True) v) {r s : List Char}
    (h : (" ".intercalate (texts xs)).toList ++ close :: r
      = (" ".intercalate (texts ys)).toList ++ close :: s) : xs = ys ∧ r = s := by
  rw [texts_eq_map, texts_eq_map] at h
  exact Text.separated_inj hclose (fun v _ => v.not_ends_text) (fun v hv => ⟨trivial, hxs v hv⟩)
    (fun _ _ => trivial) h

/-- **The text of a value is read in one way only.** -/
theorem reads_text (v : Value) : Reads text (fun _ => True) v := by
  induction v with
  | nil => exact reads_word rfl
  | bool b => exact reads_word rfl
  | int n => exact reads_word rfl
  | str a =>
    intro w _ r s hr hs h
    have hopener := opener_eq hr hs h
    cases w with
    | str b =>
      obtain ⟨hab, hrest⟩ := Text.quoted_inj h
      exact ⟨by rw [hab], hrest⟩
    | _ => simp [opener] at hopener
  | vector xs ih =>
    intro w _ r s hr hs h
    have hopener := opener_eq hr hs h
    cases w with
    | vector ys =>
      have hitems : (" ".intercalate (texts xs)).toList ++ ']' :: r
          = (" ".intercalate (texts ys)).toList ++ ']' :: s := by
        simpa [text] using h
      obtain ⟨hsame, hrest⟩ := texts_inj (Or.inr rfl) ih hitems
      exact ⟨by rw [hsame], hrest⟩
    | _ => simp [opener] at hopener
  | list xs ih =>
    intro w _ r s hr hs h
    have hopener := opener_eq hr hs h
    cases w with
    | list ys =>
      have hitems : (" ".intercalate (texts xs)).toList ++ ')' :: r
          = (" ".intercalate (texts ys)).toList ++ ')' :: s := by
        simpa [text] using h
      obtain ⟨hsame, hrest⟩ := texts_inj (Or.inl rfl) ih hitems
      exact ⟨by rw [hsame], hrest⟩
    | _ => simp [opener] at hopener

/-- **The text of a value is faithful.** Values with the same text are the same; no text of a value,
with a space, a closing bracket or nothing behind it, is the text of another value with such a rest;
and the items of a vector or a list can be told apart up to the bracket that closes it. -/
theorem text_faithful :
    (∀ v w : Value, v.text = w.text → v = w)
      ∧ (∀ (v w : Value) (r s : List Char), Ends r → Ends s →
          v.text.toList ++ r = w.text.toList ++ s → v = w ∧ r = s)
      ∧ ∀ (xs ys : List Value) (close : Char) (r s : List Char), Closes close →
          (" ".intercalate (texts xs)).toList ++ close :: r
            = (" ".intercalate (texts ys)).toList ++ close :: s → xs = ys ∧ r = s := by
  refine ⟨fun v w h => ?_, fun v w r s hr hs h => v.reads_text w trivial r s hr hs h,
    fun xs ys close r s hclose h => texts_inj hclose (fun v _ => v.reads_text) h⟩
  have hnothing : v.text.toList ++ [] = w.text.toList ++ [] := by rw [h]
  exact (v.reads_text w trivial [] [] trivial trivial hnothing).1

/-- A string that looks like the end of a vector and the beginning of another one, between items. -/
theorem text_faithful_brackets :
    let items : List Value := [.str "] [\"\\", .list [.int (-1), .nil], .list []]
    let split : List Value := [.str "] [\"\\"] ++ [.list [.int (-1), .nil], .list []]
    let rest := [')', ' ', '2']
    let rest' := [')'] ++ [' ', '2']
    (vector items).text = "[\"] [\\\"\\\\\" (-1 nil) ()]"
      ∧ ((vector items).text = (vector split).text ∧ vector items = vector split)
      ∧ (Ends rest ∧ Ends rest'
        ∧ (vector items).text.toList ++ rest = (vector split).text.toList ++ rest'
        ∧ vector items = vector split ∧ rest = rest')
      ∧ Closes ']' ∧ items = split := by
  intro items split rest rest'
  have htext : (vector items).text = (vector split).text := by decide
  have hbehind : (vector items).text.toList ++ rest = (vector split).text.toList ++ rest' := by
    rw [htext]
    rfl
  have hrow : (" ".intercalate (texts items)).toList ++ ']' :: rest
      = (" ".intercalate (texts split)).toList ++ ']' :: rest' := by decide
  have hclose : Closes ']' := Or.inr rfl
  exact ⟨by decide, ⟨htext, text_faithful.1 _ _ htext⟩,
    ⟨by decide, by decide, hbehind,
      text_faithful.2.1 _ _ rest rest' (by decide) (by decide) hbehind⟩,
    hclose, (text_faithful.2.2 items split ']' rest rest' hclose hrow).1⟩

end Hygiene.Value
