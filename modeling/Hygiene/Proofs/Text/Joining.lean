import Hygiene.Layout.Printer
import Hygiene.Proofs.Text.Reading
import Mathlib.Data.List.Forall2

/-!
# Broken lines joined again

`Text.joinLines` undoes line breaks: each one goes, with the spaces behind it, and leaves one space.
This is only safe where no other line break and no other leading space is about, which is what a
`Text.Word` has neither of: a text without a line break that does not start with a space.

`Text.Joins s t` says that `s` is `t` with breaks in it, in a way that texts can be put behind each
other (`Joins.append`). Words stay as they are (`Joins.word`), and a break with any indentation is one
space (`Joins.newline`). The texts of values are words, whatever is quoted in them
(`Value.word_literal`).
-/

namespace Hygiene.Text

/-- Each line break together with the spaces behind it, replaced by one space. -/
def joinLines : List Char → List Char
  | [] => []
  | c :: cs =>
    if c = '\n' then ' ' :: joinLines (cs.dropWhile (· == ' ')) else c :: joinLines cs
termination_by cs => cs.length
decreasing_by
  · have := (List.dropWhile_sublist (· == ' ') (l := cs)).length_le
    rw [List.length_cons]
    omega
  · rw [List.length_cons]
    omega

theorem joinLines_append {w : List Char} (h : '\n' ∉ w) (rest : List Char) :
    joinLines (w ++ rest) = w ++ joinLines rest := by
  induction w with
  | nil => rfl
  | cons c w ih =>
    rw [List.mem_cons, not_or] at h
    rw [List.cons_append, joinLines, if_neg (Ne.symm h.1), ih h.2, List.cons_append]

theorem joinLines_newline (column : Nat) {rest : List Char} (h : rest.head? ≠ some ' ') :
    joinLines ((Layout.newline column).toList ++ rest) = ' ' :: joinLines rest := by
  have hdrop : (List.replicate column ' ' ++ rest).dropWhile (· == ' ') = rest := by
    rw [List.dropWhile_append_of_pos fun c hc => by simp [List.eq_of_mem_replicate hc]]
    cases rest with
    | nil => rfl
    | cons c rest =>
      have hc : c ≠ ' ' := fun heq => h (by rw [heq]; rfl)
      rw [List.dropWhile_cons_of_neg (by simpa using hc)]
  have hline : (Layout.newline column).toList = '\n' :: List.replicate column ' ' := by
    simp [Layout.newline]
  rw [hline, List.cons_append, joinLines, if_pos rfl, hdrop]

/-! ## Words -/

/-- A text on one line that does not start with a space. It may be empty. -/
structure Word (s : String) : Prop where
  unbroken : '\n' ∉ s.toList
  front : s.toList.head? ≠ some ' '

instance (s : String) : Decidable (Word s) :=
  decidable_of_iff ('\n' ∉ s.toList ∧ s.toList.head? ≠ some ' ')
    ⟨fun h => ⟨h.1, h.2⟩, fun h => ⟨h.unbroken, h.front⟩⟩

namespace Word

/-- A text behind a word that is not empty may start as it likes. -/
theorem append_of_ne_nil {s t : String} (hs : Word s) (hne : s.toList ≠ []) (ht : '\n' ∉ t.toList) :
    Word (s ++ t) := by
  constructor
  · rw [String.toList_append, List.mem_append, not_or]
    exact ⟨hs.unbroken, ht⟩
  · obtain ⟨c, cs, hcons⟩ := List.exists_cons_of_ne_nil hne
    have hfront := hs.front
    rw [hcons] at hfront
    rw [String.toList_append, hcons]
    exact hfront

theorem append {s t : String} (hs : Word s) (ht : Word t) : Word (s ++ t) := by
  by_cases hne : s.toList = []
  · rw [String.toList_eq_nil_iff.mp hne, String.empty_append]
    exact ht
  · exact hs.append_of_ne_nil hne ht.unbroken

/-- A text without white space is a word. -/
theorem of_not_isBlank {s : String} (h : ∀ c ∈ s.toList, isBlank c = false) : Word s := by
  constructor
  · intro hmem
    exact absurd (h _ hmem) (by decide)
  · intro hfront
    exact absurd (h _ (List.mem_of_mem_head? hfront)) (by decide)

end Word

/-! ## Texts that come apart into words and breaks -/

/-- `t` is what is left of `s` when its broken lines are joined, whatever comes behind, as long as
that does not start with a space. -/
structure Joins (s t : String) : Prop where
  front : s.toList.head? ≠ some ' '
  joined : ∀ rest : List Char, rest.head? ≠ some ' ' →
    joinLines (s.toList ++ rest) = t.toList ++ joinLines rest

namespace Joins

theorem word {s : String} (h : Word s) : Joins s s :=
  ⟨h.front, fun rest _ => joinLines_append h.unbroken rest⟩

theorem newline (column : Nat) : Joins (Layout.newline column) " " := by
  constructor
  · simp [Layout.newline]
  · intro rest hrest
    exact joinLines_newline column hrest

theorem append {s t s' t' : String} (h : Joins s t) (h' : Joins s' t') :
    Joins (s ++ s') (t ++ t') := by
  -- what comes behind `s` is `s'` first, which has no space in front either
  have hfront : ∀ rest : List Char, rest.head? ≠ some ' ' →
      (s'.toList ++ rest).head? ≠ some ' ' := by
    intro rest hrest
    cases hs' : s'.toList with
    | nil => exact hrest
    | cons c cs =>
      have := h'.front
      rw [hs'] at this
      exact this
  constructor
  · rw [String.toList_append]
    cases hs : s.toList with
    | nil => exact h'.front
    | cons c cs =>
      have := h.front
      rw [hs] at this
      exact this
  · intro rest hrest
    rw [String.toList_append, String.toList_append, List.append_assoc, List.append_assoc,
      h.joined _ (hfront rest hrest), h'.joined rest hrest]

/-- Texts under each other, joined: the same texts a space apart. -/
theorem intercalate (column : Nat) {ss ts : List String} (h : List.Forall₂ Joins ss ts) :
    Joins ((Layout.newline column).intercalate ss) (" ".intercalate ts) := by
  induction h with
  | nil => exact .word (s := "") (by decide)
  | cons hfirst hrest ih =>
    cases hrest with
    | nil =>
      rw [String.intercalate_singleton, String.intercalate_singleton]
      exact hfirst
    | cons hsecond hrest =>
      rw [String.intercalate_cons_cons, String.intercalate_cons_cons]
      exact (hfirst.append (.newline column)).append ih

theorem eq {s t : String} (h : Joins s t) : joinLines s.toList = t.toList := by
  have hall := h.joined [] (by simp)
  rw [List.append_nil] at hall
  rw [hall, joinLines, List.append_nil]

end Joins

/-! ## The texts of values -/

theorem isBlank_of_mem_toDigits {base : Nat} (hbase : 1 < base) (hsmall : base ≤ 16) (n : Nat) :
    ∀ c ∈ Nat.toDigits base n, isBlank c = false := by
  have hdigits : ∀ d < 16, isBlank (Nat.digitChar d) = false := by decide
  intro c hc
  obtain ⟨d, hd, rfl⟩ := exists_digit_of_mem_toDigits hbase hc
  exact hdigits d (by omega)

theorem isBlank_of_mem_repr (n : Nat) : ∀ c ∈ n.repr.toList, isBlank c = false := by
  rw [Nat.repr_eq_ofList_toDigits, String.toList_ofList]
  exact isBlank_of_mem_toDigits (by decide) (by decide) n

theorem word_repr (n : Nat) : Word n.repr := .of_not_isBlank (isBlank_of_mem_repr n)

theorem word_decimal (n : Int) : Word (decimal n) := by
  unfold decimal
  split
  · exact Word.append (by decide) (word_repr _)
  · exact word_repr _

theorem newline_not_mem_escape (c : Char) : '\n' ∉ escape c := by
  unfold escape
  split
  · decide
  · decide
  · decide
  · decide
  · decide
  · decide
  · next hnewline _ _ =>
    split
    · rw [List.mem_singleton]
      exact fun heq => hnewline heq.symm
    · have hdigits : '\n' ∉ Nat.toDigits 16 c.toNat := fun hmem =>
        absurd (isBlank_of_mem_toDigits (by decide) (by decide) c.toNat _ hmem) (by decide)
      simp [numbered, hdigits]

/-- A quoted text is a word, also when there are line breaks in what is quoted. -/
theorem word_quoted (s : String) : Word (quoted s) := by
  constructor
  · have hescaped : '\n' ∉ escapeAll s.toList := by
      rw [escapeAll, List.mem_flatMap]
      rintro ⟨c, -, hmem⟩
      exact newline_not_mem_escape c hmem
    simp [hescaped]
  · simp

theorem newline_not_mem_intercalate {ts : List String} (h : ∀ t ∈ ts, '\n' ∉ t.toList) :
    '\n' ∉ (" ".intercalate ts).toList := by
  induction ts with
  | nil => decide
  | cons t ts ih =>
    have hrest := ih fun t ht => h t (List.mem_cons_of_mem _ ht)
    cases ts with
    | nil =>
      rw [String.intercalate_singleton]
      exact h t List.mem_cons_self
    | cons u us =>
      rw [String.intercalate_cons_cons]
      simp only [String.toList_append, List.mem_append, not_or]
      exact ⟨⟨h t List.mem_cons_self, by decide⟩, hrest⟩

/-- Texts between two brackets. -/
theorem word_bracketed {left right : String} (hleft : Word left) (hright : Word right)
    (hne : left.toList ≠ []) {ts : List String} (h : ∀ t ∈ ts, Word t) :
    Word (left ++ " ".intercalate ts ++ right) := by
  have hts := newline_not_mem_intercalate fun t ht => (h t ht).unbroken
  exact (hleft.append_of_ne_nil hne hts).append hright

end Hygiene.Text

namespace Hygiene.Value

open Text (Word)

mutual

/-- The text of a value is a word: what is quoted in it brings no line break into the text. -/
theorem word_text : ∀ v : Value, Word v.text
  | nil => by decide
  | bool true => by decide
  | bool false => by decide
  | int n => Text.word_decimal n.toInt
  | str s => Text.word_quoted s
  | vector items => Text.word_bracketed (by decide) (by decide) (by simp) (words_texts items)
  | list items => Text.word_bracketed (by decide) (by decide) (by simp) (words_texts items)

theorem words_texts : ∀ vs : List Value, ∀ t ∈ texts vs, Word t
  | [] => fun t ht => by cases ht
  | v :: vs => fun t ht => by
    rcases List.mem_cons.mp ht with rfl | ht
    · exact word_text v
    · exact words_texts vs t ht

end

theorem word_literal (v : Value) : Word v.literal := by
  unfold literal
  split
  · exact Word.append (by decide) (word_text _)
  · exact word_text v

end Hygiene.Value
