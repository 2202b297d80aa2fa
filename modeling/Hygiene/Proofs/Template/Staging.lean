import Hygiene.Proofs.Template.Expansion
import Hygiene.Proofs.Template.OnceOnly
import Hygiene.Proofs.Template.Provenance

/-!
# Making a set of bindings

A set is made name by name, and for each name two numbers are drawn, so the place of a name in the list
says which. The name at place `j` of a list drawn from the number `c` on gets `c + 2 * j` for the
identifier to bind and `c + 2 * j + 1` for the key (`drawn_eq_mapIdx`), and the two maps of the set hold
just that. A name that repeats an earlier one stops the drawing where it stands (`ofList_repeat`).

Wrapping uses the first number of each pair only. Rewriting a body binds nothing (`boundIdents_rewrite`),
so an expansion binds what its body and its listed expressions bind, and the identifiers of the set once
each (`boundIdents_letIn_staged`); and a key is in none of the places that an expansion is made from.

> `BindingSet.ofList_staging`: what a set holds, what its expansions bind, and where a list is refused.
-/

namespace Hygiene

namespace Expr

/-! ## What an expansion binds -/

theorem boundIdentsAll_rewriteAll {rewrites : Rewrites} {shadowed : List String} {es : List Expr}
    (h : ∀ e ∈ es, (e.rewrite rewrites shadowed).boundIdents = e.boundIdents) :
    boundIdentsAll (rewriteAll rewrites shadowed es) = boundIdentsAll es := by
  induction es with
  | nil => rfl
  | cons e es ih =>
    have htail := ih fun e he => h e (List.mem_cons_of_mem _ he)
    rw [rewriteAll, boundIdentsAll, boundIdentsAll, h e List.mem_cons_self, htail]

theorem boundIdents_letIn_cons (b : Binder) (e : Expr) (rest : List (Binder × Expr)) (body : Expr) :
    (letIn ((b, e) :: rest) body).boundIdents
      = e.boundIdents ++ b.idents ++ (letIn rest body).boundIdents := by
  rw [boundIdents, boundIdentsBindings, boundIdents, List.append_assoc]

/-- Rewriting leaves every binder where it is. -/
theorem boundIdents_rewrite (rewrites : Rewrites) (e : Expr) : ∀ shadowed : List String,
    (e.rewrite rewrites shadowed).boundIdents = e.boundIdents := by
  induction e using inductPeel with
  | lit v => intro shadowed; rfl
  | name n =>
    intro shadowed
    rw [rewrite_name]
    cases if n ∈ shadowed then none else rewrites.get? n <;> rfl
  | ref i => intro shadowed; rfl
  | call f args ih => intro shadowed; exact boundIdentsAll_rewriteAll fun e he => ih e he shadowed
  | letNil body ih => intro shadowed; exact ih shadowed
  | letCons b e rest body ihe ih =>
    intro shadowed
    obtain ⟨rest', body', hrest, hwhole⟩ := rewrite_letIn_cons rewrites shadowed b e rest body
    rw [hwhole, boundIdents_letIn_cons, boundIdents_letIn_cons, ihe, ← hrest, ih]
  | seq items ih => intro shadowed; exact boundIdentsAll_rewriteAll fun e he => ih e he shadowed
  | cond c t e ihc iht ihe =>
    intro shadowed
    rw [rewrite, boundIdents, boundIdents, ihc, iht, ihe]

/-- A `letIn` of identifiers binds each behind what its expression binds. -/
theorem boundIdents_letIn_staged (staged : List Staged) (body : Expr) :
    (letIn (staged.map fun s => (.ident s.binding, s.form)) body).boundIdents
      = staged.flatMap (fun s => s.form.boundIdents ++ [s.binding]) ++ body.boundIdents := by
  induction staged with
  | nil => rfl
  | cons s staged ih =>
    rw [List.map_cons, boundIdents_letIn_cons, ih, List.flatMap_cons,
      List.append_assoc _ _ body.boundIdents]
    rfl

end Expr

namespace BindingSet

/-! ## What is drawn, place by place -/

/-- The identifier to bind for the name at place `j` of a list that is drawn from the number `c` on. -/
def bindingAt (c j : Nat) (name : String) : Ident := ⟨.ofNat (c + 2 * j), name⟩

/-- The key drawn for that name. -/
def keyAt (c j : Nat) (name : String) : Ident := ⟨.ofNat (c + 2 * j + 1), name⟩

/-- The place of a name in the list says which numbers it has got. -/
theorem drawn_eq_mapIdx (bs : List (String × Expr)) : ∀ c : Nat,
    drawn c bs = bs.mapIdx fun j b => ⟨b.1, keyAt c j b.1, ⟨bindingAt c j b.1, b.2⟩⟩ := by
  induction bs with
  | nil => intro c; rfl
  | cons b bs ih =>
    intro c
    have hkey : ∀ j, keyAt (c + 2) j = keyAt c (j + 1) := by
      intro j
      unfold keyAt
      rw [show c + 2 + 2 * j = c + 2 * (j + 1) by omega]
    have hbinding : ∀ j, bindingAt (c + 2) j = bindingAt c (j + 1) := by
      intro j
      unfold bindingAt
      rw [show c + 2 + 2 * j = c + 2 * (j + 1) by omega]
    rw [drawn, ih, List.mapIdx_cons]
    simp only [hkey, hbinding]
    rfl

theorem map_drawn {α : Type} (f : Pairing → α) (c : Nat) (bs : List (String × Expr)) :
    (drawn c bs).map f
      = bs.mapIdx fun j b => f ⟨b.1, keyAt c j b.1, ⟨bindingAt c j b.1, b.2⟩⟩ := by
  rw [drawn_eq_mapIdx]
  exact List.ext_getElem (by simp) (by simp)

/-- The numbers drawn for a list are consecutive. -/
theorem numbers_drawn (bs : List (String × Expr)) : ∀ {c : Nat}, c + 2 * bs.length < 2 ^ 64 →
    (drawn c bs).flatMap (fun p => [p.staged.binding.id.toNat, p.key.id.toNat])
      = List.range' c (2 * bs.length) := by
  induction bs with
  | nil => intro c _; rfl
  | cons b bs ih =>
    intro c hroom
    rw [List.length_cons] at hroom
    have hbinding : (UInt64.ofNat c).toNat = c :=
      UInt64.toNat_ofNat_of_lt' (show c < 2 ^ 64 by omega)
    have hkey : (UInt64.ofNat (c + 1)).toNat = c + 1 :=
      UInt64.toNat_ofNat_of_lt' (show c + 1 < 2 ^ 64 by omega)
    have hcount : 2 * (bs.length + 1) = 2 * bs.length + 1 + 1 := by omega
    rw [drawn, List.flatMap_cons, ih (by omega), List.length_cons, hcount, List.range'_succ,
      List.range'_succ, hbinding, hkey]
    rfl

/-- No key is among the identifiers that were there before, or among those to be bound. -/
theorem key_ne_of_mem_drawn {c : Nat} {bs : List (String × Expr)} (hroom : c + 2 * bs.length < 2 ^ 64)
    {p : Pairing} (hp : p ∈ drawn c bs) :
    (∀ i : Ident, i.id.toNat < c → i.id ≠ p.key.id) ∧
      ∀ q ∈ drawn c bs, q.staged.binding.id ≠ p.key.id := by
  obtain ⟨j, hj, -, hkey⟩ := ids_of_mem_drawn hp
  have hnat : p.key.id.toNat = c + 2 * j + 1 := by
    rw [hkey]
    exact UInt64.toNat_ofNat_of_lt' (show c + 2 * j + 1 < 2 ^ 64 by omega)
  refine ⟨fun i hi heq => ?_, fun q hq heq => ?_⟩
  · rw [heq] at hi
    omega
  · -- one of the two numbers of a pair is at an even distance, the other at an odd one
    obtain ⟨k, hk, hbinding, -⟩ := ids_of_mem_drawn hq
    have hnat' : p.key.id.toNat = c + 2 * k := by
      rw [← heq, hbinding]
      exact UInt64.toNat_ofNat_of_lt' (show c + 2 * k < 2 ^ 64 by omega)
    omega

/-! ## Where a list is refused -/

/-- Adding one list behind another goes on with the set that the first has made. -/
theorem extend_append (xs ys : List (String × Expr)) :
    ∀ {set made : BindingSet} {supply supply' : Supply}, set.extend xs supply = (.ok made, supply') →
      set.extend (xs ++ ys) supply = made.extend ys supply' := by
  induction xs with
  | nil =>
    intro set made supply supply' h
    obtain ⟨hset, rfl⟩ := Prod.mk.inj h
    obtain rfl := Except.ok.inj hset
    rfl
  | cons x xs ih =>
    intro set made supply supply' h
    obtain ⟨name, form⟩ := x
    cases hname : set.names.contains name with
    | true =>
      rw [extend_of_contains hname] at h
      cases h
    | false =>
      rw [extend_of_not_contains hname] at h
      rw [List.cons_append, extend_of_not_contains hname, ih h]

/-- A name that repeats an earlier one ends the drawing: two numbers are gone for each name before. -/
theorem ofList_repeat {before behind : List (String × Expr)} {name : String} (form : Expr)
    {supply : Supply} (hnodup : (before.map Prod.fst).Nodup) (hmem : name ∈ before.map Prod.fst)
    (hroom : 2 * before.length ≤ 2 ^ 64) :
    ofList (before ++ (name, form) :: behind) supply
      = (.error (.duplicateName name .bindingSet),
          ⟨.ofNat (supply.next.toNat + 2 * before.length)⟩) := by
  have hmade : ofList before supply = _ := ofList_paired hnodup hroom
  have hknown : (paired (drawn supply.next.toNat before)).names.contains name = true := by
    rw [contains_paired, map_name_drawn]
    exact hmem
  rw [ofList] at hmade ⊢
  rw [extend_append before _ hmade, extend_of_contains hknown]

/-! ## The set and its expansions -/

/-- A set that was drawn for a list from the number `c` on: its names are those listed, its table has
one pairing for each of them under the key of its place, the numbers are all those from `c` on, and a
look-up by way of the two maps finds the pairing of a name that is listed and nothing for any other. -/
structure Stages (c : Nat) (bindings : List (String × Expr)) (set : BindingSet) : Prop where
  names : set.names.keys = bindings.map Prod.fst
  staged : set.staged.entries
    = bindings.mapIdx fun j b => (keyAt c j b.1, ⟨bindingAt c j b.1, b.2⟩)
  numbers : set.staged.entries.flatMap (fun e => [e.2.binding.id.toNat, e.1.id.toNat])
    = List.range' c (2 * bindings.length)
  found : ∀ j (h : j < bindings.length), set.staging? bindings[j].1 = some (keyAt c j bindings[j].1) ∧
    set.lookup? bindings[j].1 = some ⟨bindingAt c j bindings[j].1, bindings[j].2⟩
  missing : ∀ name ∉ bindings.map Prod.fst, set.staging? name = none ∧ set.lookup? name = none

section Drawn

variable {c : Nat} {bindings : List (String × Expr)}

theorem stages_drawn (hnodup : (bindings.map Prod.fst).Nodup)
    (hroom : c + 2 * bindings.length < 2 ^ 64) : Stages c bindings (paired (drawn c bindings)) := by
  have hdist : Distinct (drawn c bindings) := distinct_drawn hnodup (by omega)
  have hstaged : (paired (drawn c bindings)).staged.entries
      = (drawn c bindings).map fun p => (p.key, p.staged) := rfl
  have hnames : (paired (drawn c bindings)).names.keys = bindings.map Prod.fst := by
    rw [keys_names_paired, map_name_drawn]
  refine ⟨hnames, ?_, ?_, fun j hj => ?_, fun name hname => ?_⟩
  · rw [hstaged, map_drawn]
  · rw [hstaged, List.flatMap_map]
    exact numbers_drawn bindings hroom
  · have hj' : j < (drawn c bindings).length := by
      rw [drawn_eq_mapIdx, List.length_mapIdx]
      exact hj
    have hplace : (drawn c bindings)[j]
        = ⟨bindings[j].1, keyAt c j bindings[j].1, ⟨bindingAt c j bindings[j].1, bindings[j].2⟩⟩ := by
      simp only [drawn_eq_mapIdx, List.getElem_mapIdx]
    have hfound := lookup?_paired hdist (List.getElem_mem hj')
    rw [hplace] at hfound
    exact hfound
  · exact lookup?_eq_none (hnames ▸ hname)

/-- What an expansion binds beside what was there before: the identifiers of the set, once each and in
order. -/
theorem boundIdents_wrap_drawn {supply : Supply} (hc : c = supply.next.toNat)
    (hroom : c + 2 * bindings.length < 2 ^ 64) (hforms : ∀ b ∈ bindings, supply.Precedes b.2)
    {body : Expr} (hbody : supply.Precedes body) :
    ((paired (drawn c bindings)).wrap body).boundIdents.filter (fun i => c ≤ i.id.toNat)
      = bindings.mapIdx fun j b => bindingAt c j b.1 := by
  have hold : ∀ {e : Expr}, supply.Precedes e →
      e.boundIdents.filter (fun i => c ≤ i.id.toNat) = [] := by
    intro e he
    refine List.filter_eq_nil_iff.mpr fun i hi => ?_
    have hlt := UInt64.lt_iff_toNat_lt.mp (he i (List.mem_append_right _ hi))
    rw [decide_eq_true_iff]
    omega
  have hnew : ∀ p ∈ drawn c bindings,
      (p.staged.form.boundIdents ++ [p.staged.binding]).filter (fun i => c ≤ i.id.toNat)
        = [p.staged.binding] := by
    intro p hp
    obtain ⟨b, hb, hform⟩ := exists_form_of_mem_drawn hp
    obtain ⟨j, hj, hbinding, -⟩ := ids_of_mem_drawn hp
    have hle : c ≤ p.staged.binding.id.toNat := by
      rw [hbinding, UInt64.toNat_ofNat_of_lt' (show c + 2 * j < 2 ^ 64 by omega)]
      exact Nat.le_add_right c _
    rw [List.filter_append, ← hform, hold (hforms b hb), List.nil_append,
      List.filter_singleton, decide_eq_true hle]
    rfl
  have hbinds : ((paired (drawn c bindings)).wrap body).boundIdents
      = (drawn c bindings).flatMap (fun p => p.staged.form.boundIdents ++ [p.staged.binding])
        ++ body.boundIdents := by
    rw [wrap, emit, values_staged_paired, Expr.boundIdents_letIn_staged, List.flatMap_map,
      Expr.substitute_eq_rewrite, Expr.boundIdents_rewrite]
  rw [hbinds, List.filter_append, hold hbody, List.append_nil, List.filter_flatMap,
    List.flatMap_congr hnew, ← List.map_eq_flatMap, map_drawn]

/-- An identifier that is none of the keys of a set. -/
def NoKey (set : BindingSet) (i : Ident) : Prop := ∀ key ∈ set.staged.keys, i.id ≠ key.id

theorem noKey_drawn_iff {i : Ident} :
    (paired (drawn c bindings)).NoKey i ↔ ∀ p ∈ drawn c bindings, i.id ≠ p.key.id := by
  rw [NoKey, paired, OrderedMap.keys, List.map_map, List.forall_mem_map]
  rfl

/-- A body that is older than the set has none of its keys, also after rewriting. -/
theorem noKey_substitute_drawn {supply : Supply} (hc : c = supply.next.toNat)
    (hnodup : (bindings.map Prod.fst).Nodup) (hroom : c + 2 * bindings.length < 2 ^ 64) {body : Expr}
    (hbody : supply.Precedes body) :
    (body.substitute (paired (drawn c bindings)).rewrites).Within
      (paired (drawn c bindings)).NoKey := by
  refine Expr.Within.substitute (fun i hi => ?_) fun i hi => ?_
  · rw [rewrites_paired (distinct_drawn hnodup (by omega)), OrderedMap.values, List.map_map] at hi
    obtain ⟨q, hq, rfl⟩ := List.mem_map.mp hi
    exact noKey_drawn_iff.mpr fun p hp => (key_ne_of_mem_drawn hroom hp).2 q hq
  · have hlt : i.id.toNat < c := hc ▸ UInt64.lt_iff_toNat_lt.mp (hbody i hi)
    exact noKey_drawn_iff.mpr fun p hp => (key_ne_of_mem_drawn hroom hp).1 i hlt

end Drawn

/-- **A set is made as listed.** As long as the numbers last, distinct names make a set that holds the
list, with two numbers for each place, and a list with a name that repeats is refused at the first such
name, with two numbers gone for each name before it. An expansion of the set around a body that is older
binds the identifiers of the set, in order, to the expressions as they were listed; rewriting the body
adds no binder and brings in no key. So if the expressions listed are older as well, as they are wherever
they stood when the set was made, the whole expansion binds each of these identifiers exactly once, and
there is no key anywhere in it. -/
theorem ofList_staging {bindings : List (String × Expr)} {supply : Supply}
    (hroom : supply.next.toNat + 2 * bindings.length < 2 ^ 64) :
    let c := supply.next.toNat
    ((bindings.map Prod.fst).Nodup → ∃ set supply', ofList bindings supply = (.ok set, supply') ∧
      supply'.next.toNat = c + 2 * bindings.length ∧ Stages c bindings set ∧
      ∀ body, supply.Precedes body → ∃ inner,
        set.wrap body
          = .letIn (bindings.mapIdx fun j b => (.ident (bindingAt c j b.1), b.2)) inner ∧
        inner.boundIdents = body.boundIdents ∧ inner.Within set.NoKey ∧
        ((∀ b ∈ bindings, supply.Precedes b.2) →
          (set.wrap body).boundIdents.filter (fun i => c ≤ i.id.toNat)
              = bindings.mapIdx (fun j b => bindingAt c j b.1) ∧
            (set.wrap body).Within set.NoKey)) ∧
    (¬ (bindings.map Prod.fst).Nodup → ∃ before name form behind supply',
      bindings = before ++ (name, form) :: behind ∧
        (before.map Prod.fst).Nodup ∧ name ∈ before.map Prod.fst ∧
        ofList bindings supply = (.error (.duplicateName name .bindingSet), supply') ∧
        supply'.next.toNat = c + 2 * before.length) := by
  intro c
  refine ⟨fun hnodup => ?_, fun hrepeat => ?_⟩
  · refine ⟨_, _, ofList_paired hnodup (by omega), UInt64.toNat_ofNat_of_lt' hroom,
      stages_drawn hnodup hroom, fun body hbody => ?_⟩
    have hinner := noKey_substitute_drawn rfl hnodup hroom hbody
    refine ⟨body.substitute (paired (drawn c bindings)).rewrites, ?_, ?_, hinner, fun hforms => ?_⟩
    · rw [wrap, emit, values_staged_paired, List.map_map, map_drawn]
      rfl
    · rw [Expr.substitute_eq_rewrite, Expr.boundIdents_rewrite]
    · refine ⟨boundIdents_wrap_drawn rfl hroom hforms hbody, ?_⟩
      refine Expr.within_letIn.mpr ⟨fun b hb => ?_, hinner⟩
      rw [values_staged_paired, List.map_map] at hb
      obtain ⟨q, hq, rfl⟩ := List.mem_map.mp hb
      obtain ⟨b, hb, hform⟩ := exists_form_of_mem_drawn hq
      refine ⟨fun i hi => ?_, fun i hi => ?_⟩
      · rw [List.mem_singleton.mp hi]
        exact noKey_drawn_iff.mpr fun p hp => (key_ne_of_mem_drawn hroom hp).2 q hq
      · have hold : i ∈ b.2.refIdents ++ b.2.boundIdents := hform ▸ hi
        have hlt : i.id.toNat < c := UInt64.lt_iff_toNat_lt.mp (hforms b hb i hold)
        exact noKey_drawn_iff.mpr fun p hp => (key_ne_of_mem_drawn hroom hp).1 i hlt
  · obtain ⟨before, name, behind, hnames, hnodup, hmem⟩ := exists_first_repeat hrepeat
    obtain ⟨before, rest, rfl, rfl, hrest⟩ := List.map_eq_append_iff.mp hnames
    obtain ⟨⟨name', form⟩, behind, rfl, rfl, -⟩ := List.map_eq_cons_iff.mp hrest
    rw [List.length_append] at hroom
    exact ⟨before, name', form, behind, _, rfl, hnodup, hmem, ofList_repeat form hnodup hmem (by omega),
      UInt64.toNat_ofNat_of_lt' (show _ < 2 ^ 64 by omega)⟩

/-- From 3 on: a set whose second expression mentions the first name, around a body with an older binder,
and a list that is refused at its third name. -/
theorem ofList_staging_older :
    let k : Ident := ⟨1, "k"⟩
    let m : Ident := ⟨2, "m"⟩
    let listed : List (String × Expr) := [("v", .ref k), ("w", .letIn [(.ident k, .name "v")] (.ref k))]
    let body : Expr := .letIn [(.ident m, .name "w")] (.call "f" [.name "v", .ref m, .name "w"])
    let again : List (String × Expr) := [("a", .ref k), ("b", .name "a"), ("a", .ref m), ("b", .ref k)]
    (3 + 2 * listed.length < 2 ^ 64 ∧ (listed.map Prod.fst).Nodup ∧ Supply.Precedes ⟨3⟩ body ∧
      (∀ b ∈ listed, Supply.Precedes ⟨3⟩ b.2) ∧
      ∃ set supply', ofList listed ⟨3⟩ = (.ok set, supply') ∧ supply'.next.toNat = 7 ∧
        Stages 3 listed set ∧
        (set.wrap body).boundIdents.filter (fun i => 3 ≤ i.id.toNat) = [⟨3, "v"⟩, ⟨5, "w"⟩] ∧
        (set.wrap body).Within set.NoKey) ∧
    3 + 2 * again.length < 2 ^ 64 ∧ ¬ (again.map Prod.fst).Nodup ∧
      ∃ before form behind supply', again = before ++ ("a", form) :: behind ∧ before.length = 2 ∧
        ofList again ⟨3⟩ = (.error (.duplicateName "a" .bindingSet), supply') ∧
        supply'.next.toNat = 7 := by
  intro k m listed body again
  have hlisted : (listed.map Prod.fst).Nodup := by decide
  have hagain : ¬ (again.map Prod.fst).Nodup := by decide
  have hbody : Supply.Precedes ⟨3⟩ body := by decide
  have hforms : ∀ b ∈ listed, Supply.Precedes ⟨3⟩ b.2 := by decide
  have hroom : (⟨3⟩ : Supply).next.toNat + 2 * listed.length < 2 ^ 64 := by decide
  have hroom' : (⟨3⟩ : Supply).next.toNat + 2 * again.length < 2 ^ 64 := by decide
  obtain ⟨set, supply', hset, hnext, hstages, hwrap⟩ := (ofList_staging hroom).1 hlisted
  obtain ⟨-, -, -, -, honce⟩ := hwrap body hbody
  obtain ⟨hbinds, hkeys⟩ := honce hforms
  refine ⟨⟨hroom, hlisted, hbody, hforms, set, supply', hset, hnext, hstages, hbinds, hkeys⟩,
    hroom', hagain, ?_⟩
  obtain ⟨before, name, form, behind, supply', hsplit, -, -, hrefused, hnext'⟩ :=
    (ofList_staging hroom').2 hagain
  have hrun : ofList again ⟨3⟩ = (.error (.duplicateName "a" .bindingSet), ⟨7⟩) := rfl
  obtain ⟨hfault, rfl⟩ := Prod.mk.inj (hrun.symm.trans hrefused)
  obtain ⟨rfl, -⟩ := Fault.duplicateName.inj (Except.error.inj hfault)
  have hlength : 7 = 3 + 2 * before.length := hnext'
  exact ⟨before, form, behind, ⟨7⟩, hsplit, by omega, hrun, rfl⟩

end BindingSet

end Hygiene
