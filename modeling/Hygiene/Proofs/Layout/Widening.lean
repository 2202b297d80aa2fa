import Hygiene.Proofs.Layout.Sites

/-!
# A wider layout never breaks more

Two layouts that differ in their width alone print an expression with the same parts, but not at the
same places. What relates the places is `Layout.Kept`: a column in the wider layout is the same column
in the narrower one, which may have columns where the other has none. Breaking keeps this up, since a
line that does not fit within the wider width does not fit within the narrower one either.

* `Form.breaks_placed_le` counts the line breaks of a form in both.
* `Site.Beside` puts the two sites of one expression side by side, down every path.

> `Expr.render_wider`: whatever a wider layout breaks is broken from the same column in a narrower one.
-/

namespace Hygiene

open Text (breaks)

namespace Layout

variable {layout : Layout} {width : Nat} {wide narrow : Option Nat}

/-- A column of the wider layout is a column of the narrower one as well. -/
def Kept (wide narrow : Option Nat) : Prop := ∀ column, wide = some column → narrow = some column

/-- What the wider layout breaks, the narrower one breaks at the same column. -/
theorem Kept.breakAt (h : layout.width ≤ width) (hkept : Kept wide narrow) (line : String) :
    Kept ({ layout with width := width }.breakAt line wide) (layout.breakAt line narrow) := by
  intro column hbreak
  obtain ⟨hcolumn, hlong⟩ := breakAt_eq_some_iff.mp hbreak
  refine breakAt_eq_some_iff.mpr ⟨hkept column hcolumn, ?_⟩
  simp only [fits, decide_eq_true_eq] at hlong ⊢
  omega

theorem Kept.map (hkept : Kept wide narrow) (f : Nat → Nat) :
    Kept (wide.map f) (narrow.map f) := by
  intro column hmap
  obtain ⟨start, hstart, rfl⟩ := Option.map_eq_some_iff.mp hmap
  rw [hkept start hstart]
  rfl

theorem Kept.breaks_gap_le (hkept : Kept wide narrow) :
    breaks (gap wide) ≤ breaks (gap narrow) := by
  cases wide with
  | none => exact Nat.zero_le _
  | some column => rw [hkept column rfl]

end Layout

/-! ## Counting line breaks -/

namespace Form

open Layout (Kept newline)

variable {layout : Layout} {width : Nat}

mutual

/-- A form that has no other column in the wider layout has no more line breaks there. -/
theorem breaks_placed_le (h : layout.width ≤ width) :
    ∀ (f : Form) (wide narrow : Option Nat), Kept wide narrow →
      breaks (f.placed { layout with width := width } wide) ≤ breaks (f.placed layout narrow)
  | atom text, wide, narrow, _ => by rw [placed_atom, placed_atom]
  | call head args, wide, narrow, hkept => by
    have hbreak := hkept.breakAt h (call head args).oneLine
    have hargs := breaks_placedArgs_le h args _ _ (hbreak.map (· + layout.indent))
    rw [placed_call { layout with width := width } rfl, placed_call layout rfl]
    simp only [Text.breaks_append]
    omega
  | letIn bindings body, wide, narrow, hkept => by
    have hbreak := hkept.breakAt h (letIn bindings body).oneLine
    have hinner := hbreak.map (· + layout.indent)
    have houter := hbreak.map (· + Layout.bindingOffset)
    have hbindings := Text.breaks_intercalate_le houter.breaks_gap_le
      (breaks_placedBindings_le h bindings _ _ houter)
    have hgap := hinner.breaks_gap_le
    have hbody := breaks_placed_le h body _ _ hinner
    rw [placed_letIn { layout with width := width } rfl, placed_letIn layout rfl]
    simp only [Text.breaks_append]
    omega

theorem breaks_placedArgs_le (h : layout.width ≤ width) :
    ∀ (fs : List Form) (wide narrow : Option Nat), Kept wide narrow →
      breaks (placedArgs { layout with width := width } fs wide)
        ≤ breaks (placedArgs layout fs narrow)
  | [], wide, narrow, _ => by rw [placedArgs_nil, placedArgs_nil]
  | f :: rest, wide, narrow, hkept => by
    have hgap := hkept.breaks_gap_le
    have hfirst := breaks_placed_le h f wide narrow hkept
    have hrest := breaks_placedArgs_le h rest wide narrow hkept
    rw [placedArgs_cons, placedArgs_cons]
    simp only [Text.breaks_append]
    omega

theorem breaks_placedBindings_le (h : layout.width ≤ width) :
    ∀ (bs : List (String × Form)) (wide narrow : Option Nat), Kept wide narrow →
      List.Forall₂ (fun s t => breaks s ≤ breaks t)
        (placedBindings { layout with width := width } bs wide) (placedBindings layout bs narrow)
  | [], wide, narrow, _ => by cases wide <;> cases narrow <;> exact .nil
  | (binder, value) :: rest, wide, narrow, hkept => by
    have hvalue := breaks_placed_le h value _ _ (hkept.map (· + binder.utf8ByteSize + 2))
    rw [placedBindings_cons, placedBindings_cons]
    refine .cons ?_ (breaks_placedBindings_le h rest wide narrow hkept)
    simp only [Text.breaks_append]
    omega

end

theorem kept_none (narrow : Option Nat) : Kept none narrow := by
  intro column hcolumn
  cases hcolumn

theorem breaks_gap (column : Nat) :
    breaks (Layout.gap none) = 0 ∧ breaks (Layout.gap (some column)) = 1 :=
  ⟨by decide, Text.breaks_newline column⟩

/-- Breaking a form puts line breaks into it, so a form without any more of them is on one line. -/
theorem broken_eq_oneLine_of_breaks_le {layout : Layout} {f : Form} {column : Nat}
    (h : breaks (f.broken layout column) ≤ breaks f.oneLine) :
    f.broken layout column = f.oneLine := by
  by_cases hfits : layout.fits column f.oneLine = true
  · exact broken_of_fits hfits
  have hbreak : layout.breakAt f.oneLine (some column) = some column :=
    Layout.breakAt_eq_some_iff.mpr ⟨rfl, hfits⟩
  have hinner := breaks_gap (column + layout.indent)
  replace h : breaks (f.placed layout (some column)) ≤ breaks (f.placed layout none) := h
  show f.placed layout (some column) = f.oneLine
  cases f with
  | atom text => rfl
  | call head args =>
    rw [placed_call layout hbreak] at h ⊢
    rw [placed_call layout rfl] at h
    cases args with
    | nil => rfl
    | cons first rest =>
      -- the first argument alone has a line break in front of it
      have hfirst : breaks (first.placed layout none)
          ≤ breaks (first.placed layout (some (column + layout.indent))) :=
        breaks_placed_le (Nat.le_refl _) first _ _ (kept_none _)
      have hrest : breaks (placedArgs layout rest none)
          ≤ breaks (placedArgs layout rest (some (column + layout.indent))) :=
        breaks_placedArgs_le (Nat.le_refl _) rest _ _ (kept_none _)
      simp only [Layout.breakAt, Option.filter_none, Option.map_none, Option.map_some,
        placedArgs_cons, Text.breaks_append] at h
      omega
  | letIn bindings body =>
    have hbindings : breaks ((Layout.gap none).intercalate (placedBindings layout bindings none))
        ≤ breaks ((Layout.gap (some (column + Layout.bindingOffset))).intercalate
            (placedBindings layout bindings (some (column + Layout.bindingOffset)))) :=
      Text.breaks_intercalate_le (kept_none _).breaks_gap_le
        (breaks_placedBindings_le (Nat.le_refl _) bindings _ _ (kept_none _))
    have hbody : breaks (body.placed layout none)
        ≤ breaks (body.placed layout (some (column + layout.indent))) :=
      breaks_placed_le (Nat.le_refl _) body _ _ (kept_none _)
    rw [placed_letIn layout hbreak, placed_letIn layout rfl] at h
    simp only [Layout.breakAt, Option.filter_none, Option.map_none, Option.map_some,
      Text.breaks_append] at h
    omega

end Form

/-! ## The same expression in two layouts -/

namespace Site

open Layout (Kept)

variable {layout : Layout} {numbers : Numbers} {width : Nat} {wide narrow : Site} {k : Nat}

/-- Two sites of one expression. Where the wider layout gives it a column, the narrower one gives it
the same, and the texts before both end at the same column. -/
structure Beside (wide narrow : Site) : Prop where
  expr_eq : wide.expr = narrow.expr
  kept : Kept wide.place narrow.place
  column_eq : wide.place.isSome = true → Text.column wide.before = Text.column narrow.before

namespace Beside

theorem breakAt (h : layout.width ≤ width) (hsites : Beside wide narrow) :
    Kept (wide.breakAt { layout with width := width } numbers)
      (narrow.breakAt layout numbers) := by
  unfold Site.breakAt line
  rw [hsites.expr_eq]
  exact hsites.kept.breakAt h _

theorem slots_eq {column : Nat} (h : layout.width ≤ width) (hsites : Beside wide narrow)
    (hbreak : wide.breakAt { layout with width := width } numbers = some column) :
    wide.slots { layout with width := width } numbers = narrow.slots layout numbers := by
  rw [slots, slots, hbreak, hsites.breakAt h column hbreak, hsites.expr_eq]
  cases narrow.expr <;> rfl

/-- The parts of two such sites are two such sites again. -/
theorem part {part : Site} (h : layout.width ≤ width) (hsites : Beside wide narrow)
    (hpart : wide.part? { layout with width := width } numbers k = some part) :
    ∃ part', narrow.part? layout numbers k = some part' ∧ Beside part part' := by
  cases hbreak : wide.breakAt { layout with width := width } numbers with
  | none =>
    have hplace : part.place = none := (place_eq_none_iff hpart).mpr hbreak
    have hexpr : (narrow.part? layout numbers k).map Site.expr = some part.expr := by
      rw [expr_part?, ← hsites.expr_eq, ← expr_part? { layout with width := width } numbers, hpart]
      rfl
    obtain ⟨part', hpart', hexpr⟩ := Option.map_eq_some_iff.mp hexpr
    refine ⟨part', hpart', hexpr.symm, ?_, ?_⟩
    · intro column hcolumn
      rw [hplace] at hcolumn
      cases hcolumn
    · intro hplaced
      rw [hplace] at hplaced
      cases hplaced
  | some column =>
    -- both are broken at the same column, so they have the same slots
    obtain ⟨earlier, slot, later, hslots, rfl, rfl, hstarts⟩ := starts_of_part? hpart
    have hpart' := part?_of_slots_eq ((hsites.slots_eq h hbreak).symm.trans hslots)
    refine ⟨_, hpart', rfl, fun _ hcolumn => hcolumn, fun _ => ?_⟩
    cases hstarts with
    | behind line first front place =>
      obtain rfl := List.length_eq_zero_iff.mp first
      have hplace := (Layout.breakAt_eq_some_iff.mp hbreak).1
      rw [column_before_of_first front, column_before_of_first front, hsites.expr_eq,
        hsites.column_eq (by rw [hplace]; rfl)]
    | below indent closing line word front place =>
      rw [hbreak] at front
      rw [column_before_of_line front, column_before_of_line front]

theorem follow {site : Site} {path : List Nat} (h : layout.width ≤ width)
    (hsites : Beside wide narrow)
    (hpath : wide.follow { layout with width := width } numbers path = some site) :
    ∃ site', narrow.follow layout numbers path = some site' ∧ Beside site site' := by
  induction path generalizing wide narrow with
  | nil =>
    obtain rfl := Option.some.inj hpath
    exact ⟨narrow, rfl, hsites⟩
  | cons k path ih =>
    obtain ⟨part, hpart, hrest⟩ := Option.bind_eq_some_iff.mp hpath
    obtain ⟨part', hpart', hparts⟩ := hsites.part h hpart
    rw [Site.follow, hpart']
    exact ih hparts hrest

/-- The wider layout puts no more line breaks into the expression. -/
theorem breaks_text_le (h : layout.width ≤ width) (hsites : Beside wide narrow) :
    breaks (wide.text { layout with width := width } numbers)
      ≤ breaks (narrow.text layout numbers) := by
  rw [text, text, Expr.textAt_eq_placed, Expr.textAt_eq_placed, hsites.expr_eq]
  exact Form.breaks_placed_le h _ _ _ hsites.kept

end Beside

end Site

namespace Expr

theorem beside_rootSite (e : Expr) : Site.Beside e.rootSite e.rootSite :=
  ⟨rfl, fun _ hcolumn => hcolumn, fun _ => rfl⟩

/-- **A wider layout never breaks more.** Every expression inside has its place in both texts, and
whatever the wider layout breaks, the narrower one breaks as well: from the same column, also as the
two texts have it. So no expression has more line breaks in the wider layout, the whole one included,
and when the narrower layout adds no line break to the one-line text the texts are the same. -/
theorem render_wider (e : Expr) (layout : Layout) {width : Nat} (h : layout.width ≤ width) :
    let wider : Layout := { layout with width := width }
    let numbers := e.finalNumbers layout.numbering
    (∀ path sub, e.sub? path = some sub → ∃ wide narrow,
      e.site? wider path = some wide ∧ e.site? layout path = some narrow
        ∧ wide.expr = sub ∧ narrow.expr = sub
        ∧ e.render wider = wide.before ++ wide.text wider numbers ++ wide.behind
        ∧ e.render layout = narrow.before ++ narrow.text layout numbers ++ narrow.behind
        ∧ (∀ column, wide.breakAt wider numbers = some column →
            narrow.breakAt layout numbers = some column
              ∧ Text.column wide.before = Text.column narrow.before
              ∧ (sub.parts ≠ [] → '\n' ∈ (wide.text wider numbers).toList
                  ∧ '\n' ∈ (narrow.text layout numbers).toList))
        ∧ breaks (wide.text wider numbers) ≤ breaks (narrow.text layout numbers))
    ∧ breaks (e.render wider) ≤ breaks (e.render layout)
    ∧ (breaks (e.render layout) ≤ breaks (e.flat layout.numbering {}).1 →
        e.render wider = e.render layout)
    ∧ ('\n' ∉ (e.render layout).toList → e.render wider = e.render layout) := by
  intro wider numbers
  have hroot : breaks (e.render wider) ≤ breaks (e.render layout) := by
    rw [← text_rootSite, ← text_rootSite]
    exact e.beside_rootSite.breaks_text_le h
  have hsame : breaks (e.render layout) ≤ breaks (e.flat layout.numbering {}).1 →
      e.render wider = e.render layout := by
    intro hflat
    have hwide := Nat.le_trans hroot hflat
    rw [flat_eq_oneLine, render_eq_broken] at hflat hwide
    rw [render_eq_broken, render_eq_broken, Form.broken_eq_oneLine_of_breaks_le hflat]
    exact Form.broken_eq_oneLine_of_breaks_le hwide
  refine ⟨fun path sub hsub => ?_, hroot, hsame, fun hunbroken => hsame ?_⟩
  · obtain ⟨wide, hwide, rfl⟩ := exists_site? hsub wider
    obtain ⟨narrow, hnarrow, hsites⟩ := e.beside_rootSite.follow h hwide
    have hstands := (e.within_rootSite wider).follow hwide
    have hstands' := (e.within_rootSite layout).follow hnarrow
    refine ⟨wide, narrow, hwide, hnarrow, rfl, hsites.expr_eq.symm, hstands.whole_eq,
      hstands'.whole_eq, fun column hbreak => ?_, hsites.breaks_text_le h⟩
    have hplace := (Layout.breakAt_eq_some_iff.mp hbreak).1
    have hbreak' := hsites.breakAt h column hbreak
    refine ⟨hbreak', hsites.column_eq (by rw [hplace]; rfl), fun hparts => ?_⟩
    exact ⟨Site.newline_mem_text hstands.known hparts hbreak,
      Site.newline_mem_text hstands'.known (hsites.expr_eq ▸ hparts) hbreak'⟩
  · rw [Text.breaks_eq_zero_iff.mpr hunbroken]
    exact Nat.zero_le _

/-- The choice is broken at column 3 in both layouts, the value of the first binding in the narrower
one only. -/
theorem render_wider_value :
    let x : Ident := ⟨7, "x"⟩
    let e : Expr := .letIn [(.ident x, .call "note" [.lit (.str "a\n   b")]), (.name "y", .ref x)]
      (.cond (.ref x) (.call "pair" [.ref x, .name "y"]) (.seq []))
    let layout : Layout := { indent := 3, width := 16, numbering := .canonical }
    let wider : Layout := { layout with width := 28 }
    16 ≤ 28
      ∧ breaks (e.render wider) = 5 ∧ breaks (e.render layout) = 8
      ∧ breaks (e.render wider) ≤ breaks (e.render layout)
      ∧ ∃ wide narrow, e.site? wider [2] = some wide ∧ e.site? layout [2] = some narrow
        ∧ wide.breakAt wider (e.finalNumbers .canonical) = some 3
        ∧ narrow.breakAt layout (e.finalNumbers .canonical) = some 3
        ∧ Text.column wide.before = Text.column narrow.before := by
  intro x e layout wider
  have hwidth : layout.width ≤ 28 := by decide
  obtain ⟨hsites, hbreaks, -, -⟩ := e.render_wider layout hwidth
  obtain ⟨wide, narrow, hwide, hnarrow, -, -, -, -, hboth, -⟩ := hsites [2] _ rfl
  have hbreak : (e.site? wider [2]).map (Site.breakAt wider (e.finalNumbers .canonical))
      = some (some 3) := by decide
  rw [hwide] at hbreak
  obtain ⟨hnarrower, hcolumn, -⟩ := hboth 3 (Option.some.inj hbreak)
  exact ⟨hwidth, by decide, by decide, hbreaks, wide, narrow, hwide, hnarrow, Option.some.inj hbreak,
    hnarrower, hcolumn⟩

end Expr

end Hygiene
