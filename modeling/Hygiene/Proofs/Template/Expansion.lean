import Hygiene.Proofs.Template.Minting
import Hygiene.Proofs.Template.Rewriting
import Mathlib.Data.List.Forall2

/-!
# Names in an expansion

An expansion is one `letIn` of identifiers around a body. Identifiers bind no names, so whatever a
listed expression leaves free stays free, also a name that the set binds itself, and of the body exactly
the names of the set are taken:

> `freeNames_onceOnly`: the free names of an expansion, in order.

A body can be wrapped as it stands, or it can be built from the references that the set hands out. The
one way goes over the body with a map of the names and minds which of them a `letIn` shadows, the other
puts a reference wherever a name stands and minds nothing. As long as the body binds no name of the set
there is nothing to mind (`Expr.rewrite_eq_mapNames`), and the map leads where a look-up in the set
leads (`BindingSet.get?_rewrites`):

> `BindingSet.wrap_eq_wrapWith`: wrapping a body and building it give the same expansion.
-/

namespace Hygiene

/-! ## What stays free -/

/-- Under a `letIn` of identifiers the same mentions are free as outside, first those of the values. -/
theorem Expr.freeOccurrences_letIn_staged (bound : List String) (staged : List Staged) (body : Expr) :
    (Expr.letIn (staged.map fun s => (.ident s.binding, s.form)) body).freeOccurrences bound
      = staged.flatMap (fun s => s.form.freeOccurrences bound) ++ body.freeOccurrences bound := by
  induction staged with
  | nil => rfl
  | cons s staged ih =>
    rw [List.map_cons, freeOccurrences_letIn_cons, List.flatMap_cons, List.append_assoc, ← ih]
    rfl

/-- The first appearances in a row of lists can be found list by list. -/
theorem firstAppearances_flatMap_append {α β : Type} [BEq α] [LawfulBEq α] (f : β → List α)
    (xs : List β) (ys : List α) :
    firstAppearances (xs.flatMap f ++ ys)
      = firstAppearances (xs.flatMap (fun x => firstAppearances (f x)) ++ firstAppearances ys) := by
  have hgo : ∀ seen : List α, (xs.flatMap f ++ ys).foldl addNew seen
      = (xs.flatMap (fun x => firstAppearances (f x)) ++ firstAppearances ys).foldl addNew seen := by
    induction xs with
    | nil => exact fun seen => (foldl_addNew_firstAppearances seen ys).symm
    | cons x xs ih =>
      intro seen
      rw [List.flatMap_cons, List.flatMap_cons, List.append_assoc, List.append_assoc,
        List.foldl_append, ih, ← foldl_addNew_firstAppearances seen (f x), ← List.foldl_append]
  exact hgo []

namespace BindingSet

/-- A set rewrites its own names and no others. -/
theorem contains_rewrites_paired {ps : List Pairing} (hdist : Distinct ps) (n : String) :
    (paired ps).rewrites.contains n = decide (n ∈ ps.map Pairing.name) := by
  rw [rewrites_paired hdist, ← List.contains_eq_mem, List.contains_eq_any_beq, List.any_map]
  unfold OrderedMap.contains
  rw [List.any_map]
  rfl

/-- What wrapping leaves free, told by the pairings of the set. -/
theorem freeNames_wrap_paired {ps : List Pairing} (hdist : Distinct ps) (body : Expr) :
    ((paired ps).wrap body).freeNames
      = firstAppearances (ps.flatMap (fun p => p.staged.form.freeNames)
        ++ body.freeNames.filter fun n => n ∉ ps.map Pairing.name) := by
  have hmentions : ((paired ps).wrap body).freeOccurrences []
      = ps.flatMap (fun p => p.staged.form.freeOccurrences [])
        ++ (body.freeOccurrences []).filter fun n => n ∉ ps.map Pairing.name := by
    rw [wrap, emit, values_staged_paired, Expr.freeOccurrences_letIn_staged, List.flatMap_map,
      Expr.substitute_eq_rewrite, Expr.freeOccurrences_rewrite]
    simp only [contains_rewrites_paired hdist, decide_not]
  rw [Expr.freeNames_eq, hmentions, firstAppearances_flatMap_append, ← filter_firstAppearances]
  simp only [← Expr.freeNames_eq]

end BindingSet

/-- **The free names of an expansion**: those of the listed expressions, in order, and then those of the
body that the set does not bind, each where it first appears. A name of the set is taken from the body
alone. (Every name draws two numbers of 64 bits, so a set's own identifiers are told apart for up to
`2 ^ 63` names; no list in memory is longer.) -/
theorem freeNames_onceOnly {bindings : List (String × Expr)} {body : Expr} {supply : Supply}
    (hnames : (bindings.map Prod.fst).Nodup) (hroom : bindings.length ≤ 2 ^ 63) :
    ∃ e supply', onceOnly bindings body supply = (.ok e, supply') ∧
      e.freeNames = firstAppearances (bindings.flatMap (fun b => b.2.freeNames)
        ++ body.freeNames.filter fun n => n ∉ bindings.map Prod.fst) ∧
      ∀ n, n ∈ e.freeNames ↔ (∃ b ∈ bindings, n ∈ b.2.freeNames)
        ∨ n ∈ body.freeNames ∧ n ∉ bindings.map Prod.fst := by
  have hids : 2 * bindings.length ≤ 2 ^ 64 := by omega
  let ps := BindingSet.drawn supply.next.toNat bindings
  have hset : BindingSet.ofList bindings supply
      = (.ok (BindingSet.paired ps), ⟨.ofNat (supply.next.toNat + 2 * bindings.length)⟩) :=
    BindingSet.ofList_paired hnames hids
  have hforms : ps.flatMap (fun p => p.staged.form.freeNames)
      = bindings.flatMap fun b => b.2.freeNames := by
    rw [← List.flatMap_map (fun p : BindingSet.Pairing => p.staged.form) Expr.freeNames,
      BindingSet.map_form_drawn, List.flatMap_map]
  have hdist : BindingSet.Distinct ps := BindingSet.distinct_drawn hnames hids
  have hfree := BindingSet.freeNames_wrap_paired hdist body
  rw [hforms, BindingSet.map_name_drawn] at hfree
  refine ⟨(BindingSet.paired ps).wrap body, _, by rw [onceOnly, hset], hfree, fun n => ?_⟩
  rw [hfree, mem_firstAppearances, List.mem_append, List.mem_flatMap, List.mem_filter,
    decide_eq_true_iff]

/-- `x` is bound by the set and by a `letIn` of the body, and the second expression listed means another
`x`; `z` is free on both sides. -/
theorem freeNames_onceOnly_overlapping :
    let bindings : List (String × Expr) :=
      [("x", .call "f" [.name "y", .name "z", .name "y"]), ("y", .name "x")]
    let body : Expr :=
      .seq [.name "w", .letIn [(.name "x", .name "x")] (.name "x"), .name "z", .name "y"]
    (bindings.map Prod.fst).Nodup ∧ bindings.length ≤ 2 ^ 63 ∧
      ∃ e supply', onceOnly bindings body {} = (.ok e, supply') ∧ e.freeNames = ["y", "z", "x", "w"] := by
  intro bindings body
  have hnames : (bindings.map Prod.fst).Nodup := by decide
  have hroom : bindings.length ≤ 2 ^ 63 := by decide
  obtain ⟨e, supply', hok, hfree, -⟩ := @freeNames_onceOnly bindings body {} hnames hroom
  exact ⟨hnames, hroom, e, supply', hok, hfree⟩

/-! ## Building instead of rewriting -/

namespace Expr

mutual

/-- The binders of the `letIn`s of an expression, left to right. -/
def binders : Expr → List Binder
  | lit _ | name _ | ref _ => []
  | call _ args => bindersAll args
  | letIn bindings body => bindersBindings bindings ++ binders body
  | seq items => bindersAll items
  | cond c t e => binders c ++ binders t ++ binders e

def bindersAll : List Expr → List Binder
  | [] => []
  | e :: es => binders e ++ bindersAll es

/-- The binders of bindings, those inside the values included. -/
def bindersBindings : List (Binder × Expr) → List Binder
  | [] => []
  | (b, e) :: rest => binders e ++ b :: bindersBindings rest

end

mutual

/-- The expression with something else in the place of every name it mentions, bound or free. -/
def mapNames (leaf : String → Expr) : Expr → Expr
  | lit v => lit v
  | name n => leaf n
  | ref i => ref i
  | call f args => call f (mapNamesAll leaf args)
  | letIn bindings body => letIn (mapNamesBindings leaf bindings) (mapNames leaf body)
  | seq items => seq (mapNamesAll leaf items)
  | cond c t e => cond (mapNames leaf c) (mapNames leaf t) (mapNames leaf e)

def mapNamesAll (leaf : String → Expr) : List Expr → List Expr
  | [] => []
  | e :: es => mapNames leaf e :: mapNamesAll leaf es

def mapNamesBindings (leaf : String → Expr) : List (Binder × Expr) → List (Binder × Expr)
  | [] => []
  | (b, e) :: rest => (b, mapNames leaf e) :: mapNamesBindings leaf rest

end

theorem mem_bindersAll {b : Binder} {es : List Expr} :
    b ∈ bindersAll es ↔ ∃ e ∈ es, b ∈ e.binders := by
  induction es with
  | nil => simp [bindersAll]
  | cons e es ih => simp [bindersAll, ih]

theorem mapNamesAll_eq_map (leaf : String → Expr) (es : List Expr) :
    mapNamesAll leaf es = es.map (mapNames leaf) := by
  induction es with
  | nil => rfl
  | cons e es ih => rw [mapNamesAll, ih, List.map_cons]

/-- Where no binder is one for a name of the map, shadows make no difference: every mention is rewritten
that the map has. -/
theorem rewrite_eq_mapNames {rewrites : Rewrites} (e : Expr) : ∀ {shadowed : List String},
    (∀ n ∈ shadowed, rewrites.get? n = none) →
    (∀ n, Binder.name n ∈ e.binders → rewrites.get? n = none) →
      e.rewrite rewrites shadowed
        = e.mapNames fun n => ((rewrites.get? n).map ref).getD (name n) := by
  induction e using inductPeel with
  | lit v => intro shadowed _ _; rfl
  | name n =>
    intro shadowed hshadowed _
    rw [rewrite_name, mapNames]
    by_cases hn : n ∈ shadowed
    · rw [if_pos hn, hshadowed n hn]
    · rw [if_neg hn]
  | ref i => intro shadowed _ _; rfl
  | call f args ih =>
    intro shadowed hshadowed hbinders
    rw [rewrite, mapNames, rewriteAll_eq_map, mapNamesAll_eq_map]
    refine congrArg (call f) (List.map_congr_left fun e he => ih e he hshadowed fun n hn => ?_)
    exact hbinders n (mem_bindersAll.mpr ⟨e, he, hn⟩)
  | letNil body ih =>
    intro shadowed hshadowed hbinders
    exact congrArg (letIn []) (ih hshadowed hbinders)
  | letCons b e rest body ihe ih =>
    intro shadowed hshadowed hbinders
    simp only [binders, bindersBindings, List.append_assoc, List.cons_append, List.mem_append,
      List.mem_cons, or_imp, forall_and] at hbinders
    obtain ⟨hvalue, hbinder, hothers⟩ := hbinders
    -- the binder may add a shadow, but not of a name that is rewritten
    have hshadowed' : ∀ n ∈ b.bindName shadowed, rewrites.get? n = none := by
      cases b with
      | name m => exact List.forall_mem_cons.mpr ⟨hbinder m rfl, hshadowed⟩
      | ident i => exact hshadowed
    obtain ⟨rest', body', hrest, hwhole⟩ := rewrite_letIn_cons rewrites shadowed b e rest body
    have hsame := ih hshadowed' (by
      simpa only [binders, List.mem_append, or_imp, forall_and] using hothers)
    obtain ⟨rfl, rfl⟩ := Expr.letIn.inj (hrest.symm.trans hsame)
    rw [hwhole, ihe hshadowed hvalue]
    rfl
  | seq items ih =>
    intro shadowed hshadowed hbinders
    rw [rewrite, mapNames, rewriteAll_eq_map, mapNamesAll_eq_map]
    refine congrArg seq (List.map_congr_left fun e he => ih e he hshadowed fun n hn => ?_)
    exact hbinders n (mem_bindersAll.mpr ⟨e, he, hn⟩)
  | cond c t e ihc iht ihe =>
    intro shadowed hshadowed hbinders
    simp only [binders, List.mem_append, or_imp, forall_and] at hbinders
    obtain ⟨⟨hc, ht⟩, he⟩ := hbinders
    rw [rewrite, mapNames, ihc hshadowed hc, iht hshadowed ht, ihe hshadowed he]

end Expr

namespace BindingSet

/-- A look-up by way of the two maps finds a name's own pairing. -/
theorem lookup?_paired {ps : List Pairing} (hdist : Distinct ps) {p : Pairing} (hp : p ∈ ps) :
    (paired ps).staging? p.name = some p.key ∧ (paired ps).lookup? p.name = some p.staged := by
  have hkey : (paired ps).staging? p.name = some p.key :=
    lookup_map_of_mem Pairing.key hdist.names hp
  refine ⟨hkey, ?_⟩
  rw [lookup?, hkey, Option.bind_some]
  exact lookup_map_of_mem Pairing.staged hdist.keys hp

theorem lookup?_eq_none {set : BindingSet} {name : String} (hname : name ∉ set.names.keys) :
    set.staging? name = none ∧ set.lookup? name = none := by
  have hnone : set.staging? name = none := by
    refine OrderedMap.get?_eq_none_iff.mpr fun e he => beq_eq_false_iff_ne.mpr ?_
    rintro rfl
    exact hname (List.mem_map_of_mem he)
  exact ⟨hnone, by rw [lookup?, hnone, Option.bind_none]⟩

theorem binding?_paired {ps : List Pairing} (hdist : Distinct ps) {p : Pairing} (hp : p ∈ ps) :
    (paired ps).binding? p.name = some p.staged.binding := by
  rw [binding?, (lookup?_paired hdist hp).2]
  rfl

theorem binding?_eq_none {set : BindingSet} {n : String} (hn : n ∉ set.names.keys) :
    set.binding? n = none := by
  rw [binding?, (lookup?_eq_none hn).2]
  rfl

/-- The pairings drawn for a list go along with it. -/
theorem forall₂_drawn (c : Nat) (bindings : List (String × Expr)) :
    List.Forall₂ (fun b p => p.name = b.1 ∧ p.staged.form = b.2) bindings (drawn c bindings) := by
  induction bindings generalizing c with
  | nil => exact .nil
  | cons b rest ih => exact .cons ⟨rfl, rfl⟩ (ih (c + 2))

/-- What wrapping binds for a list, one for one: the identifier of each name, to the expression listed
under it. -/
theorem forall₂_bound {bindings : List (String × Expr)} {supply supply' : Supply} {set : BindingSet}
    (hset : ofList bindings supply = (.ok set, supply')) (hroom : bindings.length ≤ 2 ^ 63) :
    List.Forall₂ (fun b l => ∃ i, set.binding? b.1 = some i ∧ l = (Binder.ident i, b.2)) bindings
      (set.staged.values.map fun s => (.ident s.binding, s.form)) := by
  have hnodup := nodup_of_ofList_ok hset
  have hids : 2 * bindings.length ≤ 2 ^ 64 := by omega
  rw [ofList_paired hnodup hids] at hset
  obtain rfl := Except.ok.inj (congrArg Prod.fst hset)
  rw [values_staged_paired, List.map_map, List.forall₂_map_right_iff]
  have hdist := distinct_drawn (c := supply.next.toNat) hnodup hids
  obtain ⟨hlength, hpairs⟩ := List.forall₂_iff_zip.mp (forall₂_drawn supply.next.toNat bindings)
  refine List.forall₂_iff_zip.mpr ⟨hlength, fun {b p} hmem => ?_⟩
  obtain ⟨hname, hform⟩ := hpairs hmem
  refine ⟨p.staged.binding, ?_, ?_⟩
  · rw [← hname]
    exact binding?_paired hdist (List.of_mem_zip hmem).2
  · rw [← hform]
    rfl

/-- **Wrapping and building agree.** As long as a body binds no name of a set itself, wrapping the body
is the same as building it with a reference of the set in the place of every name, at any depth and
under any other binders. In both a name outside the set stays a name, and both bind the expressions of
the set in the order listed. (For that no number may be drawn twice, which takes more than `2 ^ 63`
names.) -/
theorem wrap_eq_wrapWith {bindings : List (String × Expr)} {supply supply' : Supply}
    {set : BindingSet} (hset : ofList bindings supply = (.ok set, supply')) {body : Expr}
    (hbody : ∀ n ∈ set.names.keys, Binder.name n ∉ body.binders) :
    let build : Refs → Expr := fun refs => body.mapNames refs.name
    set.wrap body = set.wrapWith build ∧
      ∃ bound, set.wrapWith build = .letIn bound (body.mapNames set.refs.name) ∧
        (∀ n, n ∉ set.names.keys → set.refs.name n = .name n) ∧
        (bindings.length ≤ 2 ^ 63 →
          List.Forall₂ (fun b l => ∃ i, set.binding? b.1 = some i ∧ l = (Binder.ident i, b.2))
            bindings bound) := by
  intro build
  have hrewrites : ∀ n, set.rewrites.get? n = set.binding? n :=
    get?_rewrites (names_of_ofList_ok hset).2
  have hbinders : ∀ n, Binder.name n ∈ body.binders → set.rewrites.get? n = none := by
    intro n hn
    rw [hrewrites]
    exact binding?_eq_none fun hmem => hbody n hmem hn
  have hshadowed : ∀ n ∈ ([] : List String), set.rewrites.get? n = none := fun _ hn => nomatch hn
  have hsame : body.substitute set.rewrites = build set.refs := by
    rw [Expr.substitute_eq_rewrite, Expr.rewrite_eq_mapNames body hshadowed hbinders]
    simp only [hrewrites]
    rfl
  refine ⟨by rw [wrap, hsame, wrapWith], _, rfl, fun n hn => ?_, forall₂_bound hset⟩
  show ((set.binding? n).map Expr.ref).getD (.name n) = .name n
  rw [binding?_eq_none hn]
  rfl

/-- Names of the set under a `letIn` of another name and of an identifier, in its values and in its
body, and a name that nobody binds. -/
theorem wrap_eq_wrapWith_nested :
    let tick : Expr := .call "tick" []
    let bindings : List (String × Expr) := [("v", tick), ("w", .name "v")]
    let k : Ident := ⟨9, "k"⟩
    let body : Expr := .letIn [(.name "tmp", .name "v"), (.ident k, .name "w")]
      (.call "f" [.name "tmp", .name "w", .ref k, .name "u"])
    ∃ set supply', ofList bindings {} = (.ok set, supply') ∧
      (∀ n ∈ set.names.keys, Binder.name n ∉ body.binders) ∧
      bindings.length ≤ 2 ^ 63 ∧
      (let bound : List (Binder × Expr) := [(.ident ⟨0, "v"⟩, tick), (.ident ⟨2, "w"⟩, .name "v")]
      let built : Expr := .letIn [(.name "tmp", .ref ⟨0, "v"⟩), (.ident k, .ref ⟨2, "w"⟩)]
        (.call "f" [.name "tmp", .ref ⟨2, "w"⟩, .ref k, .name "u"])
      set.wrap body = set.wrapWith (fun refs => body.mapNames refs.name) ∧
        set.wrapWith (fun refs => body.mapNames refs.name) = .letIn bound built ∧
        set.refs.name "u" = .name "u" ∧
        List.Forall₂ (fun b l => ∃ i, set.binding? b.1 = some i ∧ l = (Binder.ident i, b.2))
          bindings bound) := by
  intro tick bindings k body
  let set : BindingSet := ⟨⟨[("v", ⟨1, "v"⟩), ("w", ⟨3, "w"⟩)]⟩,
    ⟨[(⟨1, "v"⟩, ⟨⟨0, "v"⟩, tick⟩), (⟨3, "w"⟩, ⟨⟨2, "w"⟩, .name "v"⟩)]⟩⟩
  have hset : ofList bindings {} = (.ok set, ⟨4⟩) := rfl
  have hbody : ∀ n ∈ set.names.keys, Binder.name n ∉ body.binders := by
    simp [set, body, OrderedMap.keys, Expr.binders, Expr.bindersAll, Expr.bindersBindings]
  have hroom : bindings.length ≤ 2 ^ 63 := by decide
  obtain ⟨hsame, bound, hbuild, houtside, hbound⟩ := wrap_eq_wrapWith hset hbody
  obtain rfl : bound = _ := (Expr.letIn.inj hbuild).1.symm
  exact ⟨set, ⟨4⟩, hset, hbody, hroom, hsame, rfl, houtside "u" (by decide), hbound hroom⟩

end BindingSet

end Hygiene
