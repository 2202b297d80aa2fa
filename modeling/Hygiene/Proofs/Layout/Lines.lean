import Hygiene.Proofs.Layout.Columns

/-!
# Lines

Every line but the first starts with a part of an expression that is broken. `Site.LeadsTo` describes
the line break in front of a part, and the two directions are these: a part of a broken expression has
one in front of it (`Site.Aligned.leadsTo`), and every line break of the text is in front of a part
(`Site.Aligned.exists_leadsTo`), by induction on the expression that it stands in.

> `Expr.rendered_columns`: where every expression stands, when it is broken, and how its lines start.
-/

namespace Hygiene

open Text (Word)

namespace Site

open Layout (gap newline)

variable {layout : Layout} {numbers : Numbers} {whole : String} {s t : Site} {k : Nat}

/-! ## What a line starts with -/

/-- A line break of a whole text, with what is `above` and what is `below` it, that leads to a part.
The line starts with exactly so many spaces, then comes the part, perhaps behind a binder. -/
structure LeadsTo (part : Site) (spaces : Nat) (above below : List Char) : Prop where
  indented : ∃ rest, below = List.replicate spaces ' ' ++ rest ∧ rest.head? ≠ some ' '
  starts : ∃ lead, part.before.toList = above ++ '\n' :: (List.replicate spaces ' ' ++ lead)
    ∧ '\n' ∉ lead

/-- What a broken expression puts at a column does not start with a space. -/
theorem head?_textAt {e : Expr} (h : ∀ w ∈ e.words, Word w) (column : Nat) :
    (e.textAt layout numbers (some column)).toList.head? ≠ some ' ' := by
  rw [Expr.textAt_eq_placed]
  exact (Form.joins_broken layout _ (e.ofWords_form h numbers) column).front

theorem head?_slot {e : Expr} (h : ∀ w ∈ e.words, Word w) {column : Nat} {slot : Slot}
    (hslot : slot ∈ e.slots layout numbers (some column)) :
    (slot.text layout numbers).toList.head? ≠ some ' ' := by
  obtain ⟨hopens, hcloses⟩ := Expr.words_slots h _ slot hslot
  obtain ⟨k, hk⟩ := List.mem_iff_getElem?.mp hslot
  have hpart : ∀ w ∈ slot.part.words, Word w := fun w hw =>
    h w (Expr.words_of_mem_parts (by
      rw [← Expr.map_part_slots layout numbers e (some column)]
      exact List.mem_map_of_mem hslot) w hw)
  have hfront : slot.front.toList.head? ≠ some ' ' ∧ ∃ d, slot.place = some d := by
    cases Expr.starts_slots hk with
    | behind line first front place => exact ⟨by rw [front]; decide, _, place⟩
    | below indent closing line word front place =>
      refine ⟨?_, _, place⟩
      rw [front, String.toList_append]
      refine Text.head?_append_ne word.front ?_
      rw [Option.map_some, gap, Text.toList_newline]
      simp
  obtain ⟨hfront, d, hplace⟩ := hfront
  simp only [Slot.text, String.toList_append, hplace]
  exact Text.head?_append_ne (Text.head?_append_ne (Text.head?_append_ne hfront hopens.front)
    (head?_textAt hpart d)) hcloses.front

theorem Aligned.leadsTo_inside (h : s.Aligned layout numbers whole) {outer column : Nat}
    {earlier later : List Slot} {slot : Slot} {closing : String}
    (hbreak : s.breakAt layout numbers = some outer)
    (hslots : s.slots layout numbers = earlier ++ slot :: later)
    (hfront : slot.front = closing ++ newline column) :
    ∃ below, whole.toList
        = (s.before ++ s.expr.opening ++ String.join (earlier.map (Slot.text layout numbers))
            ++ closing).toList ++ '\n' :: below
      ∧ (s.inside layout numbers earlier slot later).LeadsTo column
          (s.before ++ s.expr.opening ++ String.join (earlier.map (Slot.text layout numbers))
            ++ closing).toList below := by
  have hpart := part?_of_slots_eq hslots
  have hinside := h.part hpart
  obtain ⟨hopens, hcloses⟩ := h.words_slot hslots
  obtain ⟨d, hplace⟩ : ∃ d, slot.place = some d := by
    refine Option.isSome_iff_exists.mp ?_
    rw [show slot.place.isSome = _ from isSome_place_of_part? hpart, hbreak]
    rfl
  have hlater : (String.join (later.map (Slot.text layout numbers))).toList.head? ≠ some ' ' := by
    refine Text.head?_join fun text htext => ?_
    obtain ⟨other, hother, rfl⟩ := List.mem_map.mp htext
    have hmem : other ∈ s.slots layout numbers := by
      rw [hslots]
      exact List.mem_append_right _ (List.mem_cons_of_mem _ hother)
    rw [slots, hbreak] at hmem
    exact head?_slot h.words hmem
  have hrest : (slot.opens.toList ++ (slot.part.textAt layout numbers (some d)).toList
      ++ slot.closes.toList).head? ≠ some ' ' :=
    Text.head?_append_ne (Text.head?_append_ne hopens.front (head?_textAt hinside.words d))
      hcloses.front
  refine ⟨List.replicate column ' ' ++ (slot.opens.toList
    ++ (slot.part.textAt layout numbers (some d)).toList
    ++ slot.closes.toList ++ (String.join (later.map (Slot.text layout numbers))).toList
    ++ (")" ++ s.behind).toList), ?_, ?_, ?_⟩
  · rw [hinside.whole_eq, text]
    simp [inside, hplace, hfront, newline, String.toList_append]
  · refine ⟨_, rfl, Text.head?_append_ne (Text.head?_append_ne hrest hlater) ?_⟩
    simp
  · refine ⟨slot.opens.toList, ?_, hopens.unbroken⟩
    simp [inside, hfront, newline, String.toList_append]

/-- Every part of a broken expression starts a line, but for the first binding of a `letIn`. -/
theorem Aligned.leadsTo (h : s.Aligned layout numbers whole) {column indent : Nat}
    (hbreak : s.breakAt layout numbers = some column)
    (hpart : s.part? layout numbers k = some t)
    (hline : s.expr.lineIndent layout k = some indent) :
    ∃ above below, whole.toList = above ++ '\n' :: below ∧ t.LeadsTo (column + indent) above below := by
  obtain ⟨earlier, slot, later, hslots, rfl, rfl, hstarts⟩ := starts_of_part? hpart
  cases hstarts with
  | behind line first front place => rw [hline] at line; cases line
  | below indent' closing line word front place =>
    obtain rfl : indent' = indent := Option.some.inj (line.symm.trans hline)
    rw [hbreak] at front
    obtain ⟨below, hwhole, hleads⟩ := h.leadsTo_inside hbreak hslots front
    exact ⟨_, below, hwhole, hleads⟩

/-! ## Which part a line break leads to -/

/-- A line break in an expression is inside one of its slots. -/
theorem Aligned.break_of_text (h : s.Aligned layout numbers whole) (hparts : s.expr.parts ≠ [])
    {above rest : List Char} (htext : (s.text layout numbers).toList = above ++ '\n' :: rest) :
    ∃ earlier slot later inner rest', s.slots layout numbers = earlier ++ slot :: later
      ∧ (slot.text layout numbers).toList = inner ++ '\n' :: rest'
      ∧ above = (s.expr.opening ++ String.join (earlier.map (Slot.text layout numbers))).toList
          ++ inner := by
  have hslots : (s.expr.opening.toList ++ (String.join ((s.slots layout numbers).map
      (Slot.text layout numbers))).toList) ++ [')'] = above ++ '\n' :: rest := by
    rw [← htext, text, Expr.textAt_eq_slots h.known hparts, String.toList_append,
      String.toList_append]
    rfl
  obtain ⟨rest₁, hopening⟩ := Text.break_before (by decide) hslots
  obtain ⟨between, habove, hjoin⟩ := Text.break_behind (Expr.word_opening h.words).unbroken hopening
  obtain ⟨earlier, slot, later, inner, rest', hsplit, hslot, hbetween⟩ := Text.break_of_join _ hjoin
  refine ⟨earlier, slot, later, inner, rest', hsplit, hslot, ?_⟩
  rw [habove, hbetween, String.toList_append, List.append_assoc]

/-- The only line break around a part is in its gap. -/
theorem break_of_slot {e : Expr} {column : Nat} {slot : Slot} {above rest : List Char}
    (hopens : Word slot.opens) (hcloses : Word slot.closes)
    (hstarts : e.Starts layout (some column) k slot)
    (htext : (slot.text layout numbers).toList = above ++ '\n' :: rest) :
    (∃ indent closing, e.lineIndent layout k = some indent
        ∧ slot.front = closing ++ newline (column + indent) ∧ above = closing.toList)
      ∨ ∃ inner rest', (slot.part.textAt layout numbers slot.place).toList = inner ++ '\n' :: rest'
        ∧ above = (slot.front ++ slot.opens).toList ++ inner := by
  rw [Slot.text, String.toList_append] at htext
  obtain ⟨rest₁, htext⟩ := Text.break_before hcloses.unbroken htext
  rw [String.toList_append] at htext
  rcases Text.break_cases htext with ⟨rest₂, hlead⟩ | ⟨inner, habove, hpart⟩
  · left
    rw [String.toList_append] at hlead
    obtain ⟨rest₃, hfront⟩ := Text.break_before hopens.unbroken hlead
    cases hstarts with
    | behind line first front place => rw [front] at hfront; simp at hfront
    | below indent closing line word front place =>
      refine ⟨indent, closing, line, front, ?_⟩
      rw [front, String.toList_append] at hfront
      obtain ⟨between, habove, hgap⟩ := Text.break_behind word.unbroken hfront
      -- there is no second line break behind the first
      have hbetween : between = [] := by
        rw [Option.map_some, gap, Text.toList_newline] at hgap
        cases between with
        | nil => rfl
        | cons c between =>
          have hspaces : '\n' ∈ List.replicate (column + indent) ' ' := by
            rw [(List.cons.inj hgap).2]
            exact List.mem_append_right _ List.mem_cons_self
          exact absurd (List.eq_of_mem_replicate hspaces) (by decide)
      rw [habove, hbetween, List.append_nil]
  · exact Or.inr ⟨inner, rest₁, hpart, habove⟩

/-- **Every line break leads to a part of something broken.** -/
theorem Aligned.exists_leadsTo (e : Expr) :
    ∀ s : Site, s.expr = e → s.Aligned layout numbers whole →
      ∀ above rest, (s.text layout numbers).toList = above ++ '\n' :: rest →
        ∃ path around column k indent part below, s.follow layout numbers path = some around
          ∧ around.breakAt layout numbers = some column
          ∧ around.part? layout numbers k = some part
          ∧ around.expr.lineIndent layout k = some indent
          ∧ whole.toList = s.before.toList ++ above ++ '\n' :: below
          ∧ part.LeadsTo (column + indent) (s.before.toList ++ above) below := by
  induction e using Expr.inductParts with
  | step e ih =>
    rintro s rfl h above rest htext
    have hmem : '\n' ∈ (s.text layout numbers).toList := by
      rw [htext]
      exact List.mem_append_right _ List.mem_cons_self
    have hparts : s.expr.parts ≠ [] := by
      intro hnil
      rw [text_of_parts_eq_nil hnil] at hmem
      exact newline_not_mem_line h.words hmem
    obtain ⟨column, hbreak⟩ := Option.isSome_iff_exists.mp
      ((newline_mem_text_iff h.words h.known hparts).mp hmem)
    obtain ⟨earlier, slot, later, inner, rest', hslots, hslot, rfl⟩ := h.break_of_text hparts htext
    have hpart := part?_of_slots_eq hslots
    obtain ⟨hopens, hcloses⟩ := h.words_slot hslots
    have hstarts : s.expr.Starts layout (some column) earlier.length slot :=
      hbreak ▸ starts_of_slots_eq hslots
    rcases break_of_slot hopens hcloses hstarts hslot with
      ⟨indent, closing, hline, hfront, rfl⟩ | ⟨inner', rest'', hdeeper, rfl⟩
    · obtain ⟨below, hwhole, hleads⟩ := h.leadsTo_inside hbreak hslots hfront
      refine ⟨[], s, column, earlier.length, indent, _, below, rfl, hbreak, hpart, hline, ?_, ?_⟩
      · simpa [String.toList_append] using hwhole
      · simpa [String.toList_append] using hleads
    · -- the line break of a part: further down
      obtain ⟨path, around, column', k, indent, part, below, hpath, hrest⟩ :=
        ih slot.part (part_mem_parts hpart) _ rfl (h.part hpart) inner' rest'' hdeeper
      refine ⟨earlier.length :: path, around, column', k, indent, part, below, ?_, ?_⟩
      · rw [Site.follow, hpart]
        exact hpath
      · simpa [inside, String.toList_append] using hrest

end Site

namespace Expr

/-- **Where lines are broken.** In the text that is printed for an expression whose words hold no white
space, every expression inside it has its place.

* The column that the printer lays it out from is the one in the text, counted in bytes. It has one
  exactly when everything around it is broken.
* If it has parts and a column, it stays on one line exactly when that line ends within the width. Any
  expression with parts that is on one line ends within the width, also inside another line.
* When it is broken, each part starts a line that is indented by `lineIndent` from there, by exactly so
  many spaces; and these are all the lines that there are.

A width below the limit of counting, or a text that does not reach that limit, stands for arithmetic
without a bound. -/
theorem rendered_columns (e : Expr) (layout : Layout)
    (hwords : ∀ w ∈ e.words, ∀ c ∈ w.toList, Text.isBlank c = false)
    (hroom : layout.width < Layout.unlimited
      ∨ (e.render layout).utf8ByteSize ≤ Layout.unlimited) :
    let numbers := e.finalNumbers layout.numbering
    (∀ path sub, e.sub? path = some sub → ∃ site, e.site? layout path = some site ∧ site.expr = sub
      ∧ e.render layout = site.before ++ site.text layout numbers ++ site.behind
      ∧ (∀ column, site.place = some column →
          site.text layout numbers = (sub.pretty layout column numbers).1
            ∧ Text.column site.before = column)
      ∧ (site.place.isSome = true ↔ ∀ outer around, outer <+: path → outer ≠ path →
          e.site? layout outer = some around → '\n' ∈ (around.text layout numbers).toList)
      ∧ (sub.parts ≠ [] →
          (∀ column, site.place = some column → ('\n' ∉ (site.text layout numbers).toList
            ↔ column + (sub.flat layout.numbering numbers).1.utf8ByteSize ≤ layout.width))
          ∧ ('\n' ∉ (site.text layout numbers).toList →
              site.text layout numbers = (sub.flat layout.numbering numbers).1
                ∧ Text.column (site.before ++ site.text layout numbers) ≤ layout.width))
      ∧ (∀ column k indent part, site.place = some column →
          '\n' ∈ (site.text layout numbers).toList → site.part? layout numbers k = some part →
          sub.lineIndent layout k = some indent →
          ∃ above below, (e.render layout).toList = above ++ '\n' :: below
            ∧ part.LeadsTo (column + indent) above below))
    ∧ ∀ above below, (e.render layout).toList = above ++ '\n' :: below →
        ∃ path around column k indent part, e.site? layout path = some around
          ∧ around.place = some column ∧ '\n' ∈ (around.text layout numbers).toList
          ∧ around.part? layout numbers k = some part
          ∧ around.expr.lineIndent layout k = some indent
          ∧ part.LeadsTo (column + indent) above below := by
  intro numbers
  have hroot := aligned_rootSite (fun w hw => .of_not_isBlank (hwords w hw)) hroom
  constructor
  · intro path sub hsub
    obtain ⟨site, hsite, rfl⟩ := exists_site? hsub layout
    have h : site.Aligned layout numbers (e.render layout) := hroot.follow hsite
    refine ⟨site, hsite, rfl, h.whole_eq, fun column hplace => ⟨?_, h.column_before column hplace⟩,
      hroot.isSome_place_iff rfl hsite,
      fun hparts => ⟨fun column => h.unbroken_iff hparts, h.ends_of_unbroken hparts⟩,
      fun column k indent part hplace hmem hpart hline => ?_⟩
    · rw [Site.text, hplace]
      rfl
    · have hparts := List.ne_nil_of_mem (Site.part_mem_parts hpart)
      exact h.leadsTo (h.breakAt_of_newline hparts hplace hmem) hpart hline
  · intro above below htext
    have hrender := htext
    rw [← text_rootSite] at hrender
    obtain ⟨path, around, column, k, indent, part, below', hpath, hbreak, hpart, hline, hwhole,
      hleads⟩ := Site.Aligned.exists_leadsTo e e.rootSite rfl hroot above below hrender
    have h : around.Aligned layout numbers (e.render layout) := hroot.follow hpath
    have hnil : e.rootSite.before.toList = [] := rfl
    rw [hnil, List.nil_append] at hwhole hleads
    obtain rfl : below = below' :=
      (List.cons.inj (List.append_cancel_left (htext.symm.trans hwhole))).2
    exact ⟨path, around, column, k, indent, part, hpath, (Layout.breakAt_eq_some_iff.mp hbreak).1,
      Site.newline_mem_text h.known (List.ne_nil_of_mem (Site.part_mem_parts hpart)) hbreak, hpart,
      hline, hleads⟩

/-- A call that would fit at the left edge is broken behind a binder, and its argument goes below. -/
theorem rendered_columns_nested :
    let x : Ident := ⟨7, "x"⟩
    let e : Expr := .letIn [(.ident x, .call "note" [.lit (.str "a\n   b")]), (.name "y", .ref x)]
      (.cond (.ref x) (.call "pair" [.ref x, .name "y"]) (.seq []))
    let layout : Layout := { indent := 3, width := 16, numbering := .canonical }
    let numbers := e.finalNumbers .canonical
    (∀ w ∈ e.words, ∀ c ∈ w.toList, Text.isBlank c = false)
      ∧ (layout.width < Layout.unlimited ∨ (e.render layout).utf8ByteSize ≤ Layout.unlimited)
      ∧ ∃ site part, e.site? layout [0] = some site ∧ site.part? layout numbers 0 = some part
        ∧ site.place = some 11 ∧ Text.column site.before = 11
        ∧ '\n' ∈ (site.text layout numbers).toList
        ∧ ∃ above below, (e.render layout).toList = above ++ '\n' :: below
          ∧ part.LeadsTo 14 above below := by
  intro x e layout numbers
  have hall : (e.words.all fun w => w.toList.all fun c => !Text.isBlank c) = true := by decide
  have hwords : ∀ w ∈ e.words, ∀ c ∈ w.toList, Text.isBlank c = false := by
    simpa only [List.all_eq_true, Bool.not_eq_true'] using hall
  have hroom : layout.width < Layout.unlimited
      ∨ (e.render layout).utf8ByteSize ≤ Layout.unlimited := Or.inl (by decide)
  have hplace : (e.site? layout [0]).map Site.place = some (some 11) := by decide
  obtain ⟨site, hsite, hexpr, -, hcolumn, -, hline, hlines⟩ :=
    (e.rendered_columns layout hwords hroom).1 [0] _ rfl
  rw [hsite] at hplace
  replace hplace : site.place = some 11 := Option.some.inj hplace
  have hbroken : '\n' ∈ (site.text layout numbers).toList := by
    by_contra hunbroken
    exact absurd (((hline (by simp [parts])).1 11 hplace).mp hunbroken) (by decide)
  obtain ⟨part, hpart⟩ : ∃ part, site.part? layout numbers 0 = some part :=
    Site.exists_part? layout numbers (by rw [hexpr]; decide)
  exact ⟨hwords, hroom, site, part, hsite, hpart, hplace, (hcolumn 11 hplace).2, hbroken,
    hlines 11 0 3 part hplace hbroken hpart rfl⟩

end Expr

end Hygiene
