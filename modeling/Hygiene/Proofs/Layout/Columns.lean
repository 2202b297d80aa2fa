import Hygiene.Proofs.Layout.Breaking
import Hygiene.Proofs.Layout.Sites
import Hygiene.Proofs.Text.Columns

/-!
# Columns passed on and columns in the text

The printer counts columns on its way down and never looks at the text that it has written. That it
counts right is the invariant `Site.Aligned`: the column of a site is the one at which the text before
it ends, its line is compared with the width as it is, and what stands inside a line ends within the
width. It needs words without white space, since a line break in a name is none that the printer knows
of; then a text has a line break exactly where the printer breaks something
(`Site.newline_mem_text_iff`).

> `Site.Aligned.isSome_place_iff`: a site has a column exactly when everything around it is broken.
-/

namespace Hygiene

open Text (Word)

namespace Expr

variable {layout : Layout} {numbers : Numbers}

/-! ## Words among the parts -/

theorem words_subset_wordsAll {e : Expr} {es : List Expr} (h : e ∈ es) :
    ∀ w ∈ e.words, w ∈ wordsAll es := by
  induction es with
  | nil => cases h
  | cons first es ih =>
    intro w hw
    rcases List.mem_cons.mp h with rfl | h
    · exact List.mem_append_left _ hw
    · exact List.mem_append_right _ (ih h w hw)

theorem words_subset_wordsBindings {b : Binder × Expr} {bs : List (Binder × Expr)} (h : b ∈ bs) :
    b.1.word ∈ wordsBindings bs ∧ ∀ w ∈ b.2.words, w ∈ wordsBindings bs := by
  induction bs with
  | nil => cases h
  | cons first bs ih =>
    rcases List.mem_cons.mp h with rfl | h
    · exact ⟨List.mem_cons_self, fun w hw => List.mem_cons_of_mem _ (List.mem_append_left _ hw)⟩
    · obtain ⟨hbinder, hvalue⟩ := ih h
      exact ⟨List.mem_cons_of_mem _ (List.mem_append_right _ hbinder), fun w hw =>
        List.mem_cons_of_mem _ (List.mem_append_right _ (hvalue w hw))⟩

theorem words_of_mem_parts {e part : Expr} (h : part ∈ e.parts) : ∀ w ∈ part.words, w ∈ e.words := by
  cases e with
  | lit v => cases h
  | name n => cases h
  | ref i => cases h
  | call f args => exact fun w hw => List.mem_cons_of_mem _ (words_subset_wordsAll h w hw)
  | seq items => exact words_subset_wordsAll h
  | cond c t e =>
    intro w hw
    have hall : w ∈ wordsAll [c, t, e] := words_subset_wordsAll h w hw
    simpa [wordsAll, words] using hall
  | letIn bindings body =>
    intro w hw
    rcases List.mem_append.mp h with hvalue | hbody
    · obtain ⟨b, hb, rfl⟩ := List.mem_map.mp hvalue
      exact List.mem_append_left _ ((words_subset_wordsBindings hb).2 w hw)
    · rw [List.mem_singleton.mp hbody] at hw
      exact List.mem_append_right _ hw

theorem word_opening {e : Expr} (h : ∀ w ∈ e.words, Word w) : Word e.opening := by
  cases e with
  | lit v => show Word ""; decide
  | name n => show Word ""; decide
  | ref i => show Word ""; decide
  | call f args => exact Word.append (by decide) (h f List.mem_cons_self)
  | seq items => show Word "(do"; decide
  | cond c t e => show Word "(if"; decide
  | letIn bindings body => show Word "(let ("; decide

theorem word_closes_argSlots {place : Option Nat} {args : List Expr} :
    ∀ slot ∈ argSlots place args, Word slot.opens ∧ Word slot.closes := by
  intro slot hslot
  obtain ⟨arg, -, rfl⟩ := List.mem_map.mp hslot
  show Word "" ∧ Word ""
  decide

theorem word_valueSlot {b : Binder × Expr} (h : Word b.1.word) (front : String)
    (place : Option Nat) :
    Word (valueSlot layout numbers front place b).opens
      ∧ Word (valueSlot layout numbers front place b).closes := by
  have hlabel := b.1.word_label layout.numbering h numbers
  have hbracket : Word ("(" ++ (b.1.label layout.numbering numbers).1) :=
    Word.append (by decide) hlabel
  have hclose : Word ")" := by decide
  exact ⟨hbracket.append_of_ne_nil (by simp) (by decide), hclose⟩

/-- What stands around a part of its own has no line break. -/
theorem words_slots {e : Expr} (h : ∀ w ∈ e.words, Word w) (column : Option Nat) :
    ∀ slot ∈ e.slots layout numbers column, Word slot.opens ∧ Word slot.closes := by
  cases e with
  | lit v => exact List.forall_mem_nil _
  | name n => exact List.forall_mem_nil _
  | ref i => exact List.forall_mem_nil _
  | call f args => exact word_closes_argSlots
  | seq items => exact word_closes_argSlots
  | cond c t e => exact word_closes_argSlots
  | letIn bindings body =>
    have hbinder : ∀ b ∈ bindings, Word b.1.word := fun b hb =>
      h _ (List.mem_append_left _ (words_subset_wordsBindings hb).1)
    intro slot hslot
    rcases List.mem_append.mp hslot with hvalue | hbody
    · cases bindings with
      | nil => cases hvalue
      | cons b rest =>
        rcases List.mem_cons.mp hvalue with rfl | hrest
        · exact word_valueSlot (hbinder b List.mem_cons_self) _ _
        · obtain ⟨b', hb', rfl⟩ := List.mem_map.mp hrest
          exact word_valueSlot (hbinder b' (List.mem_cons_of_mem _ hb')) _ _
    · rw [List.mem_singleton.mp hbody]
      show Word "" ∧ Word ""
      decide

end Expr

namespace Site

open Layout (gap)

variable {layout : Layout} {numbers : Numbers} {whole : String} {s t : Site} {k : Nat}

theorem newline_not_mem_line (h : ∀ w ∈ s.expr.words, Word w) :
    '\n' ∉ (s.line layout numbers).toList := by
  rw [line, Expr.flat_eq_oneLine]
  exact (Form.word_oneLine _ (s.expr.ofWords_form h numbers)).unbroken

/-- A form with parts has a line break in its text exactly when the printer breaks it. -/
theorem newline_mem_text_iff (hwords : ∀ w ∈ s.expr.words, Word w)
    (hknown : s.expr.Known layout.numbering numbers) (hparts : s.expr.parts ≠ []) :
    '\n' ∈ (s.text layout numbers).toList ↔ (s.breakAt layout numbers).isSome = true := by
  constructor
  · intro hmem
    cases hbreak : s.breakAt layout numbers with
    | none =>
      rw [text_of_breakAt_eq_none hbreak] at hmem
      exact absurd hmem (newline_not_mem_line hwords)
    | some column => rfl
  · intro h
    obtain ⟨column, hbreak⟩ := Option.isSome_iff_exists.mp h
    exact newline_mem_text hknown hparts hbreak

/-! ## Columns are what they are called -/

/-- The printer knows where the site stands: its column is the one in the text, its line is compared
with the width as it is, and inside a line that is not broken everything ends within the width. -/
structure Aligned (layout : Layout) (numbers : Numbers) (whole : String) (s : Site) : Prop
    extends s.Within layout numbers whole where
  words : ∀ w ∈ s.expr.words, Word w
  column_before : ∀ column, s.place = some column → Text.column s.before = column
  fits_iff : ∀ column, s.place = some column →
    (layout.fits column (s.line layout numbers) = true
      ↔ column + (s.line layout numbers).utf8ByteSize ≤ layout.width)
  ends : s.place = none →
    Text.column s.before + (s.line layout numbers).utf8ByteSize ≤ layout.width

namespace Aligned

theorem words_slot (h : s.Aligned layout numbers whole) {earlier later : List Slot} {slot : Slot}
    (hslots : s.slots layout numbers = earlier ++ slot :: later) :
    Word slot.opens ∧ Word slot.closes := by
  have hmem : slot ∈ s.slots layout numbers :=
    hslots ▸ List.mem_append_right _ List.mem_cons_self
  exact Expr.words_slots h.words _ slot hmem

/-- What is not broken ends within the width. -/
theorem ends_of_breakAt (h : s.Aligned layout numbers whole)
    (hbreak : s.breakAt layout numbers = none) :
    Text.column s.before + (s.line layout numbers).utf8ByteSize ≤ layout.width := by
  cases hplace : s.place with
  | none => exact h.ends hplace
  | some column =>
    rw [h.column_before column hplace]
    refine (h.fits_iff column hplace).mp ?_
    rw [breakAt, hplace] at hbreak
    simpa [Layout.breakAt] using hbreak

theorem column_of_part (h : s.Aligned layout numbers whole)
    (hpart : s.part? layout numbers k = some t) {column : Nat} (hplace : t.place = some column) :
    Text.column t.before = column := by
  obtain ⟨earlier, slot, later, hslots, rfl, rfl, hstarts⟩ := starts_of_part? hpart
  have hopens : '\n' ∉ slot.opens.toList := (h.words_slot hslots).1.unbroken
  have hopening : '\n' ∉ s.expr.opening.toList := (Expr.word_opening h.words).unbroken
  have hslot : slot.place = some column := hplace
  cases hstarts with
  | behind line first front place =>
    obtain rfl := List.length_eq_zero_iff.mp first
    rw [place] at hslot
    obtain ⟨outer, hbreak, rfl⟩ := Option.map_eq_some_iff.mp hslot
    have houter := h.column_before outer (Layout.breakAt_eq_some_iff.mp hbreak).1
    rw [column_before_of_first front, Text.columnAfter_of_unbroken hopens,
      Text.columnAfter_of_unbroken hopening, houter, Nat.add_assoc]
  | below indent closing line word front place =>
    rw [place] at hslot
    obtain ⟨outer, hbreak, rfl⟩ := Option.map_eq_some_iff.mp hslot
    rw [hbreak] at front
    rw [column_before_of_line front, Text.columnAfter_of_unbroken hopens, Nat.add_assoc]

theorem part (h : s.Aligned layout numbers whole) (hpart : s.part? layout numbers k = some t) :
    t.Aligned layout numbers whole := by
  refine ⟨h.toWithin.part hpart, ?_, fun column => h.column_of_part hpart, ?_, ?_⟩
  · intro w hw
    exact h.words w (Expr.words_of_mem_parts (part_mem_parts hpart) w hw)
  · intro column hplace
    have hsome := isSome_place_of_part? hpart
    rw [hplace, Option.isSome_some] at hsome
    obtain ⟨outer, hbreak⟩ := Option.isSome_iff_exists.mp hsome.symm
    exact Layout.fits_iff
      (Layout.width_lt_of_not_fits (Layout.breakAt_eq_some_iff.mp hbreak).2) _ _
  · intro hplace
    have hbreak := (place_eq_none_iff hpart).mp hplace
    have hends := h.ends_of_breakAt hbreak
    have hline : t.text layout numbers = t.line layout numbers := by
      refine text_of_breakAt_eq_none ?_
      rw [breakAt, hplace]
      rfl
    -- the part is a stretch of the line, so nothing up to its end is behind the end of the line
    obtain ⟨left, right, hbefore, -, htext⟩ := text_of_part? h.known hpart
    rw [text_of_breakAt_eq_none hbreak, hline] at htext
    have hunbroken : '\n' ∉ (s.line layout numbers).toList := newline_not_mem_line h.words
    rw [htext] at hunbroken
    have hleft : '\n' ∉ left.toList := fun hmem => hunbroken (by simp [hmem])
    rw [htext, String.utf8ByteSize_append, String.utf8ByteSize_append] at hends
    rw [hbefore, Text.column_append, Text.columnAfter_of_unbroken hleft]
    omega

theorem follow {path : List Nat} (h : s.Aligned layout numbers whole)
    (hpath : s.follow layout numbers path = some t) : t.Aligned layout numbers whole :=
  follow_keeps Aligned.part h hpath

theorem breakAt_of_newline (h : s.Aligned layout numbers whole) (hparts : s.expr.parts ≠ [])
    {column : Nat} (hplace : s.place = some column)
    (hmem : '\n' ∈ (s.text layout numbers).toList) : s.breakAt layout numbers = some column := by
  obtain ⟨column', hbreak⟩ := Option.isSome_iff_exists.mp
    ((newline_mem_text_iff h.words h.known hparts).mp hmem)
  have hcolumn := (Layout.breakAt_eq_some_iff.mp hbreak).1
  rw [hbreak, ← hcolumn, hplace]

/-- **The break criterion.** At a column an expression with parts stays on one line exactly when that
line ends within the width. -/
theorem unbroken_iff (h : s.Aligned layout numbers whole) (hparts : s.expr.parts ≠ [])
    {column : Nat} (hplace : s.place = some column) :
    '\n' ∉ (s.text layout numbers).toList
      ↔ column + (s.line layout numbers).utf8ByteSize ≤ layout.width := by
  rw [newline_mem_text_iff h.words h.known hparts, ← h.fits_iff column hplace, breakAt, hplace]
  simp [Layout.breakAt, Option.filter]

/-- On one line, inside another one or not, an expression with parts ends within the width. -/
theorem ends_of_unbroken (h : s.Aligned layout numbers whole) (hparts : s.expr.parts ≠ [])
    (hunbroken : '\n' ∉ (s.text layout numbers).toList) :
    s.text layout numbers = s.line layout numbers
      ∧ Text.column (s.before ++ s.text layout numbers) ≤ layout.width := by
  have hbreak : s.breakAt layout numbers = none := by
    rw [← Option.not_isSome_iff_eq_none, ← newline_mem_text_iff h.words h.known hparts]
    exact hunbroken
  have hline := text_of_breakAt_eq_none hbreak
  refine ⟨hline, ?_⟩
  rw [Text.column_append, Text.columnAfter_of_unbroken hunbroken, hline]
  exact h.ends_of_breakAt hbreak

/-- A site has a column exactly when everything around it is broken. -/
theorem isSome_place_iff {path : List Nat} (h : s.Aligned layout numbers whole)
    (hplace : s.place.isSome = true) (hpath : s.follow layout numbers path = some t) :
    t.place.isSome = true ↔ ∀ outer around, outer <+: path → outer ≠ path →
      s.follow layout numbers outer = some around → '\n' ∈ (around.text layout numbers).toList := by
  induction path generalizing s with
  | nil =>
    obtain rfl := Option.some.inj hpath
    refine ⟨fun _ outer around houter hne => ?_, fun _ => hplace⟩
    exact absurd (List.prefix_nil.mp houter) hne
  | cons k path ih =>
    obtain ⟨part, hpart, hrest⟩ := Option.bind_eq_some_iff.mp hpath
    have hbroken : '\n' ∈ (s.text layout numbers).toList ↔ part.place.isSome = true := by
      rw [newline_mem_text_iff h.words h.known (List.ne_nil_of_mem (part_mem_parts hpart)),
        isSome_place_of_part? hpart]
    constructor
    · intro ht outer around houter hne haround
      have hsome := isSome_place_of_follow hrest ht
      cases outer with
      | nil =>
        obtain rfl := Option.some.inj haround
        exact hbroken.mpr hsome
      | cons k' outer =>
        obtain ⟨rfl, hinner⟩ := List.cons_prefix_cons.mp houter
        rw [Site.follow, hpart] at haround
        exact (ih (h.part hpart) hsome hrest).mp ht outer around hinner
          (fun heq => hne (by rw [heq])) haround
    · intro hall
      have hsome := hbroken.mp (hall [] s (List.nil_prefix) (List.cons_ne_nil _ _).symm rfl)
      refine (ih (h.part hpart) hsome hrest).mpr fun outer around houter hne haround => ?_
      refine hall (k :: outer) around (List.cons_prefix_cons.mpr ⟨rfl, houter⟩) ?_ ?_
      · intro heq
        exact hne (List.cons.inj heq).2
      · rw [Site.follow, hpart]
        exact haround

end Aligned

end Site

namespace Expr

variable {layout : Layout}

theorem aligned_rootSite {e : Expr} (hwords : ∀ w ∈ e.words, Word w)
    (hroom : layout.width < Layout.unlimited
      ∨ (e.render layout).utf8ByteSize ≤ Layout.unlimited) :
    e.rootSite.Aligned layout (e.finalNumbers layout.numbering) (e.render layout) := by
  refine ⟨e.within_rootSite layout, hwords, ?_, ?_, ?_⟩
  · intro column hplace
    obtain rfl := Option.some.inj hplace
    rfl
  · intro column hplace
    obtain rfl := Option.some.inj hplace
    by_cases hwidth : layout.width < Layout.unlimited
    · exact Layout.fits_iff hwidth _ _
    · -- nothing is broken, and the text is not longer than columns are counted
      have hfits (text : String) : layout.fits 0 text = true := by
        simp only [Layout.fits, decide_eq_true_eq]
        omega
      have hline : e.render layout = e.rootSite.line layout (e.finalNumbers layout.numbering) := by
        rw [← text_rootSite]
        refine Site.text_of_breakAt_eq_none ?_
        simp [Site.breakAt, Layout.breakAt, rootSite, hfits]
      rw [hline] at hroom
      simp only [hfits, true_iff]
      omega
  · intro hplace
    cases hplace

end Expr

end Hygiene
