import Hygiene.Proofs.Layout.Parts
import Hygiene.Proofs.Text.Columns

/-!
# Where an expression stands

The printer takes an expression apart from the outside in. It decides for an expression at a column
whether it stays on one line; when it does not, its parts go to columns of their own, and the same
question is asked for each of them. Inside an expression on one line nothing has a column any more.

A `Site` is an expression at a place in the printed text, between what is printed before and behind it.
`Expr.site?` follows a path down from the whole expression, one part after another, with the columns
that the printer passes on (`Site.part?`). The table of numbers is the one that printing leaves, on the
whole way.

* `Site.Within` is the invariant on the way down: the site stands in the whole text between its two
  sides. A step to a part keeps it (`Site.Within.part`), and so does every path (`Site.Within.follow`).
* `Expr.exists_site?`: every expression inside another has a site, however deep.
-/

namespace Hygiene

namespace Layout

theorem width_lt_of_not_fits {layout : Layout} {column : Nat} {text : String}
    (h : ¬ layout.fits column text = true) : layout.width < unlimited := by
  simp only [fits, decide_eq_true_eq] at h
  omega

/-- Below the greatest width, columns are counted as if there were no end to them. -/
theorem fits_iff {layout : Layout} (h : layout.width < unlimited) (column : Nat) (text : String) :
    layout.fits column text = true ↔ column + text.utf8ByteSize ≤ layout.width := by
  simp only [fits, decide_eq_true_eq]
  omega

theorem breakAt_eq_some_iff {layout : Layout} {line : String} {place : Option Nat} {column : Nat} :
    layout.breakAt line place = some column
      ↔ place = some column ∧ ¬ layout.fits column line = true := by
  simp [breakAt, Option.filter_eq_some_iff]

end Layout

/-! ## Sites -/

/-- An expression at a place in a text, between what is printed before and behind it. -/
structure Site where
  expr : Expr
  /-- The column that the printer puts the expression at, unless it stands inside a line. -/
  place : Option Nat
  before : String
  behind : String

namespace Site

section

variable (layout : Layout) (numbers : Numbers)

/-- What is printed for the expression. -/
def text (s : Site) : String := s.expr.textAt layout numbers s.place

/-- The expression on one line. -/
def line (s : Site) : String := (s.expr.flat layout.numbering numbers).1

/-- The column at which the printer gives the line up, if it does. What has parts is broken there. -/
def breakAt (s : Site) : Option Nat := layout.breakAt (s.line layout numbers) s.place

/-- The parts, as the printer places them. -/
def slots (s : Site) : List Slot := s.expr.slots layout numbers (s.breakAt layout numbers)

/-- Where a part stands that has other parts around it. -/
def inside (s : Site) (earlier : List Slot) (slot : Slot) (later : List Slot) : Site where
  expr := slot.part
  place := slot.place
  before := s.before ++ s.expr.opening ++ String.join (earlier.map (Slot.text layout numbers))
    ++ slot.front ++ slot.opens
  behind := slot.closes ++ String.join (later.map (Slot.text layout numbers)) ++ ")" ++ s.behind

/-- Where the part with a number stands. -/
def part? (s : Site) (k : Nat) : Option Site :=
  let slots := s.slots layout numbers
  slots[k]?.map fun slot => s.inside layout numbers (slots.take k) slot (slots.drop (k + 1))

/-- Down a path of part numbers. -/
def follow (s : Site) : (path : List Nat) → Option Site
  | [] => some s
  | k :: path => (s.part? layout numbers k).bind fun part => part.follow path

end

variable {layout : Layout} {numbers : Numbers} {s t : Site} {k : Nat}

/-- A part is one of the slots, with the others on its two sides. -/
theorem part?_eq_some_iff :
    s.part? layout numbers k = some t ↔ ∃ earlier slot later,
      s.slots layout numbers = earlier ++ slot :: later ∧ earlier.length = k
        ∧ t = s.inside layout numbers earlier slot later := by
  constructor
  · intro h
    obtain ⟨slot, hslot, rfl⟩ := Option.map_eq_some_iff.mp h
    obtain ⟨hk, rfl⟩ := List.getElem?_eq_some_iff.mp hslot
    refine ⟨_, _, _, ?_, ?_, rfl⟩
    · rw [← List.drop_eq_getElem_cons hk, List.take_append_drop]
    · exact List.length_take_of_le (Nat.le_of_lt hk)
  · rintro ⟨earlier, slot, later, hslots, rfl, rfl⟩
    simp [part?, hslots]

theorem part?_of_slots_eq {earlier later : List Slot} {slot : Slot}
    (h : s.slots layout numbers = earlier ++ slot :: later) :
    s.part? layout numbers earlier.length = some (s.inside layout numbers earlier slot later) :=
  part?_eq_some_iff.mpr ⟨earlier, slot, later, h, rfl, rfl⟩

theorem expr_part? (layout : Layout) (numbers : Numbers) (s : Site) (k : Nat) :
    (s.part? layout numbers k).map Site.expr = s.expr.parts[k]? := by
  rw [part?, Option.map_map, ← Expr.map_part_slots layout numbers, List.getElem?_map]
  rfl

theorem part_mem_parts (h : s.part? layout numbers k = some t) :
    t.expr ∈ s.expr.parts := by
  have hexpr : s.expr.parts[k]? = some t.expr := by
    rw [← expr_part? layout numbers, h]
    rfl
  exact List.mem_of_getElem? hexpr

theorem expr_follow (path : List Nat) :
    (s.follow layout numbers path).map Site.expr = s.expr.sub? path := by
  induction path generalizing s with
  | nil => rfl
  | cons k path ih =>
    rw [follow, Expr.sub?, ← expr_part? layout numbers]
    cases s.part? layout numbers k with
    | none => rfl
    | some part => exact ih

/-- What every step to a part keeps, a path keeps. -/
theorem follow_keeps {P : Site → Prop}
    (hpart : ∀ {s t : Site} {k : Nat}, P s → s.part? layout numbers k = some t → P t)
    {path : List Nat} (h : P s) (hpath : s.follow layout numbers path = some t) : P t := by
  induction path generalizing s with
  | nil => exact Option.some.inj hpath ▸ h
  | cons k path ih =>
    obtain ⟨part, hfirst, hrest⟩ := Option.bind_eq_some_iff.mp hpath
    exact ih (hpart h hfirst) hrest

/-- The text of a part is a stretch of the text around it. -/
theorem text_of_part? (h : s.expr.Known layout.numbering numbers)
    (hpart : s.part? layout numbers k = some t) :
    ∃ left right, t.before = s.before ++ left ∧ t.behind = right ++ s.behind
      ∧ s.text layout numbers = left ++ t.text layout numbers ++ right := by
  obtain ⟨earlier, slot, later, hslots, -, rfl⟩ := part?_eq_some_iff.mp hpart
  refine ⟨s.expr.opening ++ String.join (earlier.map (Slot.text layout numbers)) ++ slot.front
      ++ slot.opens,
    slot.closes ++ String.join (later.map (Slot.text layout numbers)) ++ ")", ?_, ?_, ?_⟩
  · simp [inside, String.append_assoc]
  · simp [inside, String.append_assoc]
  · rw [text, Expr.textAt_eq_slots h (List.ne_nil_of_mem (part_mem_parts hpart))]
    show s.expr.opening ++ String.join ((s.slots layout numbers).map _) ++ ")" = _
    rw [hslots]
    simp [inside, text, Slot.text, String.append_assoc]

/-! ### What is broken -/

theorem text_of_breakAt_eq_none (h : s.breakAt layout numbers = none) :
    s.text layout numbers = s.line layout numbers := by
  rw [breakAt, line, Expr.flat_eq_oneLine] at h
  rw [text, line, Expr.textAt_eq_placed, Expr.flat_eq_oneLine]
  exact Form.placed_of_breakAt_eq_none layout h

/-- Without parts there is nothing to break. -/
theorem text_of_parts_eq_nil (h : s.expr.parts = []) :
    s.text layout numbers = s.line layout numbers := by
  rw [text, line, Expr.textAt_eq_placed, Expr.flat_eq_oneLine]
  have hcall (head : String) :
      (Form.call head []).placed layout s.place = (Form.call head []).oneLine := by
    cases s.place with
    | none => rfl
    | some column =>
      rw [Form.placed, Form.broken]
      split
      · rfl
      · rfl
  cases hexpr : s.expr with
  | lit v => exact Form.placed_atom layout _ _
  | name n => exact Form.placed_atom layout _ _
  | ref i => exact Form.placed_atom layout _ _
  | call f args =>
    rw [hexpr, Expr.parts] at h
    subst h
    exact hcall f
  | seq items =>
    rw [hexpr, Expr.parts] at h
    subst h
    exact hcall "do"
  | cond c t e => rw [hexpr] at h; cases h
  | letIn bindings body => rw [hexpr] at h; simp [Expr.parts] at h

theorem starts_of_slots_eq {earlier later : List Slot} {slot : Slot}
    (h : s.slots layout numbers = earlier ++ slot :: later) :
    s.expr.Starts layout (s.breakAt layout numbers) earlier.length slot := by
  have hslot : (s.slots layout numbers)[earlier.length]? = some slot := by simp [h]
  exact Expr.starts_slots hslot

theorem starts_of_part? (h : s.part? layout numbers k = some t) :
    ∃ earlier slot later, s.slots layout numbers = earlier ++ slot :: later ∧ earlier.length = k
      ∧ t = s.inside layout numbers earlier slot later
      ∧ s.expr.Starts layout (s.breakAt layout numbers) k slot := by
  obtain ⟨earlier, slot, later, hslots, rfl, ht⟩ := part?_eq_some_iff.mp h
  exact ⟨earlier, slot, later, hslots, rfl, ht, starts_of_slots_eq hslots⟩

/-- On a line of its own a part stands where the indentation of the line says. -/
theorem column_before_of_line {earlier later : List Slot} {slot : Slot} {closing : String}
    {column : Nat} (h : slot.front = closing ++ Layout.newline column) :
    Text.column (s.inside layout numbers earlier slot later).before
      = Text.columnAfter column slot.opens := by
  simp only [inside, h, ← String.append_assoc]
  rw [Text.column_append, Text.column_append, Text.columnAfter_newline]

/-- On the line of the expression around it a part stands behind what opens that. -/
theorem column_before_of_first {later : List Slot} {slot : Slot} (h : slot.front = "") :
    Text.column (s.inside layout numbers [] slot later).before
      = Text.columnAfter (Text.columnAfter (Text.column s.before) s.expr.opening) slot.opens := by
  simp only [inside, h, List.map_nil, String.join_nil, String.append_empty]
  rw [Text.column_append, Text.column_append]

/-- The parts have columns when the expression around them is broken, and only then. -/
theorem isSome_place_of_part? (h : s.part? layout numbers k = some t) :
    t.place.isSome = (s.breakAt layout numbers).isSome := by
  obtain ⟨earlier, slot, later, -, -, rfl, hstarts⟩ := starts_of_part? h
  show slot.place.isSome = _
  cases hstarts with
  | behind line first front place => rw [place, Option.isSome_map]
  | below indent closing line word front place => rw [place, Option.isSome_map]

theorem place_eq_none_iff (h : s.part? layout numbers k = some t) :
    t.place = none ↔ s.breakAt layout numbers = none := by
  rw [← Option.not_isSome_iff_eq_none, isSome_place_of_part? h, Option.not_isSome_iff_eq_none]

/-- Inside a line there are no columns any more. -/
theorem isSome_place_of_follow {path : List Nat} (hpath : s.follow layout numbers path = some t)
    (ht : t.place.isSome = true) : s.place.isSome = true := by
  induction path generalizing s with
  | nil => exact Option.some.inj hpath ▸ ht
  | cons k path ih =>
    obtain ⟨part, hpart, hrest⟩ := Option.bind_eq_some_iff.mp hpath
    have hbreak := ih hrest
    rw [isSome_place_of_part? hpart] at hbreak
    obtain ⟨column, hcolumn⟩ := Option.isSome_iff_exists.mp hbreak
    rw [(Layout.breakAt_eq_some_iff.mp hcolumn).1]
    rfl

theorem exists_part? (layout : Layout) (numbers : Numbers) (h : k < s.expr.parts.length) :
    ∃ t, s.part? layout numbers k = some t := by
  have hexpr := expr_part? layout numbers s k
  rw [List.getElem?_eq_getElem h] at hexpr
  obtain ⟨t, ht, -⟩ := Option.map_eq_some_iff.mp hexpr
  exact ⟨t, ht⟩

theorem newline_mem_text (hknown : s.expr.Known layout.numbering numbers)
    (hparts : s.expr.parts ≠ []) {column : Nat} (h : s.breakAt layout numbers = some column) :
    '\n' ∈ (s.text layout numbers).toList := by
  obtain ⟨k, hk, hline⟩ := Expr.exists_lineIndent layout hparts
  obtain ⟨t, ht⟩ := exists_part? layout numbers hk
  obtain ⟨earlier, slot, later, hslots, -, -, hstarts⟩ := starts_of_part? ht
  cases hstarts with
  | behind line first front place => rw [hline] at line; cases line
  | below indent closing line word front place =>
    have hfront : '\n' ∈ slot.front.toList := by
      rw [front, h, String.toList_append]
      exact List.mem_append_right _ (Text.newline_mem_newline _)
    rw [text, Expr.textAt_eq_slots hknown hparts]
    show '\n' ∈ (s.expr.opening ++ String.join ((s.slots layout numbers).map _) ++ ")").toList
    rw [hslots]
    simp [Slot.text, hfront]

/-! ### The invariant on the way down -/

/-- The site stands in a whole text, which is what is printed before it, for it and behind it, and the
table knows what it shows. -/
structure Within (layout : Layout) (numbers : Numbers) (whole : String) (s : Site) : Prop where
  known : s.expr.Known layout.numbering numbers
  whole_eq : whole = s.before ++ s.text layout numbers ++ s.behind

theorem Within.part {whole : String} (h : s.Within layout numbers whole)
    (hpart : s.part? layout numbers k = some t) : t.Within layout numbers whole := by
  obtain ⟨left, right, hbefore, hbehind, htext⟩ := text_of_part? h.known hpart
  constructor
  · exact h.known.part (part_mem_parts hpart)
  · rw [h.whole_eq, htext, hbefore, hbehind]
    simp only [String.append_assoc]

theorem Within.follow {whole : String} {path : List Nat} (h : s.Within layout numbers whole)
    (hpath : s.follow layout numbers path = some t) : t.Within layout numbers whole :=
  follow_keeps Within.part h hpath

end Site

namespace Expr

/-- The table of numbers that printing the expression leaves. -/
def finalNumbers (e : Expr) (numbering : Numbering) : Numbers := (e.flat numbering {}).2

/-- The whole expression, from column 0. -/
def rootSite (e : Expr) : Site := { expr := e, place := some 0, before := "", behind := "" }

/-- The site that a path leads to in the text that is printed for an expression. -/
def site? (e : Expr) (layout : Layout) (path : List Nat) : Option Site :=
  e.rootSite.follow layout (e.finalNumbers layout.numbering) path

theorem known_finalNumbers (e : Expr) (numbering : Numbering) :
    e.Known numbering (e.finalNumbers numbering) := by
  rw [Known, finalNumbers, flat_eq_oneLine]
  exact congrArg Prod.snd ((e.settles_form numbering).again {})

/-- The printer hands the same table on, whatever it breaks. -/
theorem text_rootSite (e : Expr) (layout : Layout) :
    e.rootSite.text layout (e.finalNumbers layout.numbering) = e.render layout := by
  have hagain := (e.settles_form layout.numbering).again {}
  rw [Site.text, textAt_eq_placed, finalNumbers, flat_eq_oneLine, render_eq_broken]
  exact congrArg (fun pass => pass.1.broken layout 0) hagain

theorem within_rootSite (e : Expr) (layout : Layout) :
    e.rootSite.Within layout (e.finalNumbers layout.numbering) (e.render layout) :=
  ⟨e.known_finalNumbers layout.numbering, by
    rw [text_rootSite, rootSite, String.empty_append, String.append_empty]⟩

/-- Every expression inside has a site. -/
theorem exists_site? {e sub : Expr} {path : List Nat} (h : e.sub? path = some sub)
    (layout : Layout) : ∃ site, e.site? layout path = some site ∧ site.expr = sub := by
  have hexpr : (e.site? layout path).map Site.expr = some sub := by
    rw [site?, Site.expr_follow]
    exact h
  exact Option.map_eq_some_iff.mp hexpr

end Expr

end Hygiene
