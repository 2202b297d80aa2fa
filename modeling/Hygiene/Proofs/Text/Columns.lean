import Hygiene.Layout.Printer
import Mathlib.Data.List.Forall2

/-!
# Columns of a text

`Text.column` says at which column a text ends that starts at column 0: a line break goes back to 0,
any other character goes on by its length in UTF-8 bytes. The column is so what stands behind the last
line break (`Text.column_of_newline`). What is written behind a text takes its column from there on
(`Text.column_append`): a text on one line adds its length, and a line break with indentation leads to
the column that it names, wherever it stands.
-/

namespace Hygiene.Text

/-! ## Indentation -/

theorem toList_newline (column : Nat) :
    (Layout.newline column).toList = '\n' :: List.replicate column ' ' := by
  simp [Layout.newline]

theorem newline_mem_newline (column : Nat) : '\n' ∈ (Layout.newline column).toList := by
  rw [toList_newline]
  exact List.mem_cons_self

theorem head?_append_ne {cs ds : List Char} (hcs : cs.head? ≠ some ' ') (hds : ds.head? ≠ some ' ') :
    (cs ++ ds).head? ≠ some ' ' := by
  rw [List.head?_append]
  cases h : cs.head? with
  | none => simpa using hds
  | some c => simpa [h] using hcs

theorem head?_join {texts : List String} (h : ∀ text ∈ texts, text.toList.head? ≠ some ' ') :
    (String.join texts).toList.head? ≠ some ' ' := by
  induction texts with
  | nil => decide
  | cons text texts ih =>
    rw [String.join_cons, String.toList_append]
    exact head?_append_ne (h text List.mem_cons_self)
      (ih fun text ht => h text (List.mem_cons_of_mem _ ht))

/-! ## Columns -/

/-- The column behind a character. -/
def stepColumn (column : Nat) (c : Char) : Nat :=
  if c = '\n' then 0 else column + c.utf8Size

/-- The column behind a text that starts at a column. -/
def columnAfter (column : Nat) (s : String) : Nat := s.toList.foldl stepColumn column

/-- The column at which a text ends. -/
def column (s : String) : Nat := columnAfter 0 s

theorem columnAfter_append (start : Nat) (s t : String) :
    columnAfter start (s ++ t) = columnAfter (columnAfter start s) t := by
  rw [columnAfter, String.toList_append, List.foldl_append]
  rfl

theorem column_append (s t : String) : column (s ++ t) = columnAfter (column s) t :=
  columnAfter_append 0 s t

/-- On one line the column grows by the length of the text. -/
theorem columnAfter_of_unbroken {s : String} (h : '\n' ∉ s.toList) (start : Nat) :
    columnAfter start s = start + s.utf8ByteSize := by
  obtain ⟨cs, rfl⟩ : ∃ cs, s = String.ofList cs := ⟨s.toList, String.ofList_toList.symm⟩
  rw [String.toList_ofList] at h
  rw [columnAfter, String.toList_ofList]
  induction cs generalizing start with
  | nil => rfl
  | cons c cs ih =>
    rw [List.mem_cons, not_or] at h
    rw [List.foldl_cons, stepColumn, if_neg (Ne.symm h.1), ih _ h.2, String.ofList_cons,
      String.utf8ByteSize_append, String.utf8ByteSize_singleton, Nat.add_assoc]

theorem columnAfter_newline (start column : Nat) :
    columnAfter start (Layout.newline column) = column := by
  have hspaces : columnAfter 0 (String.ofList (List.replicate column ' ')) = column := by
    rw [columnAfter, String.toList_ofList]
    induction column with
    | zero => rfl
    | succ column ih =>
      rw [List.replicate_succ', List.foldl_append, ih]
      rfl
  rw [Layout.newline, columnAfter_append]
  exact hspaces

/-- The column is the length of what stands behind the last line break. -/
theorem column_of_newline (s : String) {t : String} (h : '\n' ∉ t.toList) :
    column (s ++ "\n" ++ t) = t.utf8ByteSize := by
  have hbreak : columnAfter (column s) "\n" = 0 := columnAfter_newline _ 0
  rw [column_append, column_append, hbreak, columnAfter_of_unbroken h, Nat.zero_add]

/-! ## Line breaks of texts behind each other -/

variable {xs ys above below : List Char}

/-- A line break of two texts belongs to one of them. -/
theorem break_cases (h : xs ++ ys = above ++ '\n' :: below) :
    (∃ rest, xs = above ++ '\n' :: rest)
      ∨ ∃ between, above = xs ++ between ∧ ys = between ++ '\n' :: below := by
  rcases List.append_eq_append_iff.mp h with ⟨between, habove, hys⟩ | ⟨between, hxs, hrest⟩
  · exact Or.inr ⟨between, habove, hys⟩
  · cases between with
    | nil => exact Or.inr ⟨[], by rw [hxs, List.append_nil, List.append_nil], hrest.symm⟩
    | cons c between =>
      obtain ⟨rfl, -⟩ := List.cons.inj hrest
      exact Or.inl ⟨between, hxs⟩

theorem break_behind (hxs : '\n' ∉ xs) (h : xs ++ ys = above ++ '\n' :: below) :
    ∃ between, above = xs ++ between ∧ ys = between ++ '\n' :: below := by
  rcases break_cases h with ⟨rest, rfl⟩ | hbehind
  · exact absurd (List.mem_append_right _ List.mem_cons_self) hxs
  · exact hbehind

theorem break_before (hys : '\n' ∉ ys) (h : xs ++ ys = above ++ '\n' :: below) :
    ∃ rest, xs = above ++ '\n' :: rest := by
  rcases break_cases h with hbefore | ⟨between, -, rfl⟩
  · exact hbefore
  · exact absurd (List.mem_append_right _ List.mem_cons_self) hys

/-- A line break of texts in a row belongs to one of them. -/
theorem break_of_join {α : Type} (text : α → String) {as : List α}
    (h : (String.join (as.map text)).toList = above ++ '\n' :: below) :
    ∃ earlier a later above' below', as = earlier ++ a :: later
      ∧ (text a).toList = above' ++ '\n' :: below'
      ∧ above = (String.join (earlier.map text)).toList ++ above' := by
  induction as generalizing above with
  | nil => simp at h
  | cons a as ih =>
    rw [List.map_cons, String.join_cons, String.toList_append] at h
    rcases break_cases h with ⟨rest, hfirst⟩ | ⟨between, rfl, hrest⟩
    · exact ⟨[], a, as, above, rest, rfl, hfirst, by simp⟩
    · obtain ⟨earlier, a', later, above', below', rfl, htext, rfl⟩ := ih hrest
      exact ⟨a :: earlier, a', later, above', below', rfl, htext, by simp⟩

/-! ## Counting line breaks -/

/-- The number of line breaks in a text. -/
def breaks (s : String) : Nat := s.toList.count '\n'

@[simp] theorem breaks_append (s t : String) : breaks (s ++ t) = breaks s + breaks t := by
  rw [breaks, String.toList_append, List.count_append]
  rfl

theorem breaks_newline (column : Nat) : breaks (Layout.newline column) = 1 := by
  rw [breaks, toList_newline, List.count_cons_self, List.count_eq_zero.mpr]
  intro hmem
  exact absurd (List.eq_of_mem_replicate hmem) (by decide)

theorem breaks_eq_zero_iff {s : String} : breaks s = 0 ↔ '\n' ∉ s.toList := List.count_eq_zero

theorem breaks_intercalate_le {gap gap' : String} (hgap : breaks gap ≤ breaks gap')
    {ss ts : List String} (h : List.Forall₂ (fun s t => breaks s ≤ breaks t) ss ts) :
    breaks (gap.intercalate ss) ≤ breaks (gap'.intercalate ts) := by
  induction h with
  | nil => exact Nat.le_refl _
  | cons hfirst hrest ih =>
    cases hrest with
    | nil => simpa using hfirst
    | cons hsecond hrest =>
      rw [String.intercalate_cons_cons, String.intercalate_cons_cons]
      simp only [breaks_append]
      omega

end Hygiene.Text
