import Hygiene.Proofs.OrderedMap
import Hygiene.Template.BindingSet
import Mathlib.Algebra.Group.Nat.Defs
import Mathlib.Data.List.Basic

/-!
# What a binding set holds

A set of bindings is built in two maps that are linked by a key drawn for each name. As long as the
names are distinct the two maps tell one list, `BindingSet.drawn`: the bindings in the order listed,
each with the two identifiers that the supply gave for it. `extend_paired` carries this through the
loop that builds the set, so distinct names always make a set (`ofList_paired`); names that repeat
never do (`nodup_of_ofList_ok`).

From then on the detour through the keys is gone: `rewrites_paired` says where the names point in
terms of that list.

Identifiers are numbers of 64 bits, and their numbers are told apart as long as no more than `2 ^ 64`
of them are drawn in a row, wherever the supply stands (`ofNat_ne_ofNat`).
-/

namespace Hygiene

/-- Numbers less than `2 ^ 64` apart stay apart in 64 bits. -/
theorem ofNat_ne_ofNat {a b : Nat} (hlt : a < b) (hnear : b < a + 2 ^ 64) :
    UInt64.ofNat a ≠ UInt64.ofNat b := by
  intro h
  have hnat := congrArg UInt64.toNat h
  rw [UInt64.toNat_ofNat', UInt64.toNat_ofNat'] at hnat
  omega

namespace BindingSet

/-- A name with the two identifiers drawn for it and the expression listed under it. -/
structure Pairing where
  name : String
  /-- The identifier that keys the pairing. -/
  key : Ident
  staged : Staged

/-- The pairings of listed bindings, drawn in order from the number `c` on: first the identifier to
bind, then the key. -/
def drawn (c : Nat) : List (String × Expr) → List Pairing
  | [] => []
  | (name, form) :: rest =>
    ⟨name, ⟨.ofNat (c + 1), name⟩, ⟨⟨.ofNat c, name⟩, form⟩⟩ :: drawn (c + 2) rest

/-- The set whose two maps tell the given pairings. -/
def paired (ps : List Pairing) : BindingSet :=
  ⟨⟨ps.map fun p => (p.name, p.key)⟩, ⟨ps.map fun p => (p.key, p.staged)⟩⟩

@[simp] theorem keys_names_paired (ps : List Pairing) :
    (paired ps).names.keys = ps.map Pairing.name := by
  rw [paired, OrderedMap.keys, List.map_map]
  rfl

@[simp] theorem values_staged_paired (ps : List Pairing) :
    (paired ps).staged.values = ps.map Pairing.staged := by
  rw [paired, OrderedMap.values, List.map_map]
  rfl

theorem drawn_append (c : Nat) (xs ys : List (String × Expr)) :
    drawn c (xs ++ ys) = drawn c xs ++ drawn (c + 2 * xs.length) ys := by
  induction xs generalizing c with
  | nil => rfl
  | cons x xs ih =>
    obtain ⟨name, form⟩ := x
    have hc : c + 2 * (xs.length + 1) = c + 2 + 2 * xs.length := by omega
    rw [List.cons_append, drawn, drawn, ih, List.length_cons, hc]
    rfl

@[simp] theorem map_name_drawn (c : Nat) (bs : List (String × Expr)) :
    (drawn c bs).map Pairing.name = bs.map Prod.fst := by
  induction bs generalizing c with
  | nil => rfl
  | cons b bs ih => simp only [drawn, List.map_cons, ih]

@[simp] theorem map_form_drawn (c : Nat) (bs : List (String × Expr)) :
    (drawn c bs).map (fun p => p.staged.form) = bs.map Prod.snd := by
  induction bs generalizing c with
  | nil => rfl
  | cons b bs ih => simp only [drawn, List.map_cons, ih]

/-- Each pairing has the two numbers of its place in the list. -/
theorem ids_of_mem_drawn {c : Nat} {bs : List (String × Expr)} {p : Pairing} (h : p ∈ drawn c bs) :
    ∃ j < bs.length,
      p.staged.binding.id = .ofNat (c + 2 * j) ∧ p.key.id = .ofNat (c + 2 * j + 1) := by
  induction bs generalizing c with
  | nil => cases h
  | cons b bs ih =>
    rcases List.mem_cons.mp h with rfl | h
    · exact ⟨0, Nat.succ_pos _, rfl, rfl⟩
    · obtain ⟨j, hj, hbinding, hkey⟩ := ih h
      have hc : c + 2 * (j + 1) = c + 2 + 2 * j := by omega
      exact ⟨j + 1, Nat.succ_lt_succ hj, by rw [hc]; exact hbinding, by rw [hc]; exact hkey⟩

/-- Each pairing has an expression that was listed. -/
theorem exists_form_of_mem_drawn {c : Nat} {bs : List (String × Expr)} {p : Pairing}
    (h : p ∈ drawn c bs) : ∃ b ∈ bs, b.2 = p.staged.form := by
  have hform : p.staged.form ∈ (drawn c bs).map fun p => p.staged.form := List.mem_map_of_mem h
  rw [map_form_drawn] at hform
  exact List.mem_map.mp hform

/-- No two pairings share an identifier of either kind. -/
theorem pairwise_drawn {c : Nat} {bs : List (String × Expr)} (hroom : 2 * bs.length ≤ 2 ^ 64) :
    (drawn c bs).Pairwise fun p q =>
      p.staged.binding.id ≠ q.staged.binding.id ∧ p.key.id ≠ q.key.id := by
  induction bs generalizing c with
  | nil => exact List.Pairwise.nil
  | cons b bs ih =>
    rw [List.length_cons] at hroom
    refine List.pairwise_cons.mpr ⟨fun q hq => ?_, ih (by omega)⟩
    obtain ⟨j, hj, hbinding, hkey⟩ := ids_of_mem_drawn hq
    rw [hbinding, hkey]
    exact ⟨ofNat_ne_ofNat (by omega) (by omega), ofNat_ne_ofNat (by omega) (by omega)⟩

/-! ## Building the set -/

theorem contains_paired {ps : List Pairing} {name : String} :
    (paired ps).names.contains name = true ↔ name ∈ ps.map Pairing.name := by
  rw [OrderedMap.contains, List.any_eq_true, List.mem_map]
  constructor
  · rintro ⟨e, he, hname⟩
    obtain ⟨p, hp, rfl⟩ := List.mem_map.mp he
    exact ⟨p, hp, (eq_of_beq hname).symm⟩
  · rintro ⟨p, hp, rfl⟩
    exact ⟨(p.name, p.key), List.mem_map_of_mem hp, beq_self_eq_true p.name⟩

/-- A key drawn now is none of the keys drawn before. -/
theorem not_contains_key {c : Nat} {done : List (String × Expr)} (key : Ident)
    (hkey : key.id = .ofNat (c + 2 * done.length + 1)) (hroom : 2 * (done.length + 1) ≤ 2 ^ 64) :
    (paired (drawn c done)).staged.contains key = false := by
  refine OrderedMap.contains_eq_false_iff.mpr fun e he => ?_
  obtain ⟨p, hp, rfl⟩ := List.mem_map.mp he
  obtain ⟨j, hj, -, hp⟩ := ids_of_mem_drawn hp
  have hne : key.id ≠ p.key.id := by
    rw [hkey, hp]
    exact (ofNat_ne_ofNat (by omega) (by omega)).symm
  exact Ident.beq_eq_false_iff.mpr hne

/-- Adding a new name draws its two identifiers and puts its pairing behind the others. -/
theorem stage_paired {c : Nat} {done : List (String × Expr)} {name : String} (form : Expr)
    (hnew : name ∉ done.map Prod.fst) (hroom : 2 * (done.length + 1) ≤ 2 ^ 64) :
    (paired (drawn c done)).stage name form ⟨.ofNat (c + 2 * done.length)⟩
      = (paired (drawn c (done ++ [(name, form)])),
          ⟨.ofNat (c + 2 * (done.length + 1))⟩) := by
  have hname : (paired (drawn c done)).names.contains name = false := by
    rw [Bool.eq_false_iff, Ne, contains_paired, map_name_drawn]
    exact hnew
  -- the supply counts in words, `drawn` in natural numbers
  have hnext : UInt64.ofNat (c + 2 * (done.length + 1))
      = .ofNat (c + 2 * done.length) + 1 + 1 := by
    rw [show c + 2 * (done.length + 1) = c + 2 * done.length + 1 + 1 by omega,
      UInt64.ofNat_add, UInt64.ofNat_add _ 1]
    rfl
  have hkey : UInt64.ofNat (c + 2 * done.length) + 1 = .ofNat (c + 2 * done.length + 1) := by
    rw [UInt64.ofNat_add _ 1]
    rfl
  have hstaged := not_contains_key ⟨.ofNat (c + 2 * done.length) + 1, name⟩ hkey hroom
  rw [drawn_append, hnext]
  simp only [stage, Supply.fresh]
  rw [OrderedMap.insert_of_not_contains hname, OrderedMap.insert_of_not_contains hstaged, hkey]
  simp only [paired, drawn, List.map_append, List.map_cons, List.map_nil]

/-- The loop that builds a set, from the pairings drawn so far to all of them. -/
theorem extend_paired {c : Nat} (rest : List (String × Expr)) :
    ∀ done : List (String × Expr), ((done ++ rest).map Prod.fst).Nodup →
      2 * (done.length + rest.length) ≤ 2 ^ 64 →
      (paired (drawn c done)).extend rest ⟨.ofNat (c + 2 * done.length)⟩
        = (.ok (paired (drawn c (done ++ rest))),
            ⟨.ofNat (c + 2 * (done.length + rest.length))⟩) := by
  induction rest with
  | nil => intro done _ _; rw [List.append_nil]; rfl
  | cons b rest ih =>
    intro done hnodup hroom
    obtain ⟨name, form⟩ := b
    -- the invariant: the maps tell `drawn c done`, and the supply stands two numbers further for each
    have happend : done ++ (name, form) :: rest = done ++ [(name, form)] ++ rest := by
      rw [List.append_assoc]
      rfl
    rw [List.length_cons] at hroom ⊢
    have hnew : name ∉ done.map Prod.fst := by
      rw [List.map_append, List.nodup_append] at hnodup
      exact fun hmem => hnodup.2.2 name hmem name List.mem_cons_self rfl
    have hlength : (done ++ [(name, form)]).length = done.length + 1 := List.length_append
    have hih := ih (done ++ [(name, form)]) (by rwa [← happend]) (by omega)
    rw [hlength] at hih
    rw [extend_of_not_contains, stage_paired form hnew (by omega), happend, hih]
    · rw [show done.length + 1 + rest.length = done.length + (rest.length + 1) by omega]
    · rw [Bool.eq_false_iff, Ne, contains_paired, map_name_drawn]
      exact hnew

/-- The loop gets to its end only if no name repeats, and then the names are those listed. -/
theorem names_of_extend_ok (rest : List (String × Expr)) :
    ∀ (set : BindingSet) (supply : Supply) {result : BindingSet} {supply' : Supply},
      set.names.keys.Nodup → set.extend rest supply = (.ok result, supply') →
      result.names.keys = set.names.keys ++ rest.map Prod.fst ∧ result.names.keys.Nodup := by
  induction rest with
  | nil =>
    intro set supply result supply' hkeys hok
    obtain rfl : set = result := Except.ok.inj (congrArg Prod.fst hok)
    exact ⟨(List.append_nil _).symm, hkeys⟩
  | cons b rest ih =>
    intro set supply result supply' hkeys hok
    obtain ⟨name, form⟩ := b
    cases hname : set.names.contains name with
    | true =>
      rw [extend_of_contains hname] at hok
      cases hok
    | false =>
      rw [extend_of_not_contains hname] at hok
      have hnew : name ∉ set.names.keys := by
        intro hmem
        obtain ⟨e, he, rfl⟩ := List.mem_map.mp hmem
        have hne := OrderedMap.contains_eq_false_iff.mp hname e he
        rw [beq_self_eq_true] at hne
        cases hne
      have hstage : (set.stage name form supply).1.names.keys = set.names.keys ++ [name] :=
        OrderedMap.keys_insert_of_not_contains hname _
      have hgo := ih _ _ (by
        rw [hstage]
        exact List.nodup_append.mpr ⟨hkeys, by simp, fun x hx y hy hxy => by
          rw [List.mem_singleton.mp hy] at hxy
          exact hnew (hxy ▸ hx)⟩) hok
      rwa [hstage, List.append_assoc] at hgo

/-- Distinct names make a set, and its maps tell what has been drawn. -/
theorem ofList_paired {bindings : List (String × Expr)} {supply : Supply}
    (hnodup : (bindings.map Prod.fst).Nodup) (hroom : 2 * bindings.length ≤ 2 ^ 64) :
    ofList bindings supply
      = (.ok (paired (drawn supply.next.toNat bindings)),
          ⟨.ofNat (supply.next.toNat + 2 * bindings.length)⟩) := by
  have h := extend_paired (c := supply.next.toNat) bindings [] hnodup (by simpa using hroom)
  rw [List.length_nil, Nat.mul_zero, Nat.add_zero, Nat.zero_add, UInt64.ofNat_toNat] at h
  exact h

/-- A set has the names that were listed, each of them once. -/
theorem names_of_ofList_ok {bindings : List (String × Expr)} {supply supply' : Supply}
    {set : BindingSet} (hok : ofList bindings supply = (.ok set, supply')) :
    set.names.keys = bindings.map Prod.fst ∧ set.names.keys.Nodup :=
  names_of_extend_ok bindings {} supply List.nodup_nil hok

/-- A set comes about only if no name is listed twice. -/
theorem nodup_of_ofList_ok {bindings : List (String × Expr)} {supply supply' : Supply}
    {set : BindingSet} (hok : ofList bindings supply = (.ok set, supply')) :
    (bindings.map Prod.fst).Nodup := by
  obtain ⟨hnames, hnodup⟩ := names_of_ofList_ok hok
  exact hnames ▸ hnodup

/-! ## Wrapping with the set -/

/-- Rewriting points a name where a look-up of the name leads. -/
theorem get?_rewrites {set : BindingSet} (hnames : set.names.keys.Nodup) (name : String) :
    set.rewrites.get? name = set.binding? name := by
  have hkeys : set.names.entries.Pairwise fun p q => (q.1 == p.1) = false :=
    (List.pairwise_map.mp hnames).imp fun hne => beq_eq_false_iff_ne.mpr hne.symm
  let find : Ident → Option Ident := fun key => (set.staged.get? key).map Staged.binding
  let entries := set.names.entries.filterMap fun e => (find e.2).map fun i => (e.1, i)
  have hfound : set.rewrites = .ofList entries := by
    unfold rewrites entries find
    simp only [Option.map_map]
    rfl
  have hdistinct : entries.Pairwise fun p q => (q.1 == p.1) = false := by
    refine hkeys.filterMap _ fun p q hne p' hp q' hq => ?_
    obtain ⟨i, -, rfl⟩ := Option.map_eq_some_iff.mp hp
    obtain ⟨j, -, rfl⟩ := Option.map_eq_some_iff.mp hq
    exact hne
  rw [hfound, OrderedMap.ofList_eq hdistinct, OrderedMap.get?, OrderedMap.lookup_filterMap find hkeys]
  exact (Option.map_bind).symm

/-- Pairings that one set can hold: distinct names, distinct bindings, distinct keys. -/
structure Distinct (ps : List Pairing) : Prop where
  names : ps.Pairwise fun p q => (q.name == p.name) = false
  bindings : ps.Pairwise fun p q => (q.staged.binding == p.staged.binding) = false
  keys : ps.Pairwise fun p q => (q.key == p.key) = false

theorem distinct_drawn {c : Nat} {bs : List (String × Expr)} (hnodup : (bs.map Prod.fst).Nodup)
    (hroom : 2 * bs.length ≤ 2 ^ 64) : Distinct (drawn c bs) := by
  have hids := pairwise_drawn (c := c) hroom
  refine ⟨?_, hids.imp fun h => ?_, hids.imp fun h => ?_⟩
  · rw [← map_name_drawn c, List.Nodup, List.pairwise_map] at hnodup
    exact hnodup.imp fun hne => beq_eq_false_iff_ne.mpr hne.symm
  · exact Ident.beq_eq_false_iff.mpr h.1.symm
  · exact Ident.beq_eq_false_iff.mpr h.2.symm

/-- Every name points at the identifier bound for it. -/
theorem rewrites_paired {ps : List Pairing} (h : Distinct ps) :
    (paired ps).rewrites = ⟨ps.map fun p => (p.name, p.staged.binding)⟩ := by
  have hfound : ∀ p ∈ ps, ((paired ps).staged.get? p.key).map (fun s => (p.name, s.binding))
      = some (p.name, p.staged.binding) := by
    intro p hp
    have hget : (paired ps).staged.get? p.key = some p.staged :=
      lookup_map_of_mem Pairing.staged h.keys hp
    rw [hget]
    rfl
  have hentries : (paired ps).names.entries.filterMap (fun e =>
      ((paired ps).staged.get? e.2).map fun s => (e.1, s.binding))
      = ps.map fun p => (p.name, p.staged.binding) := by
    rw [paired, List.filterMap_map]
    exact List.filterMap_eq_map_iff_forall_eq_some.mpr hfound
  have hrewrites : (paired ps).rewrites = .ofList (ps.map fun p => (p.name, p.staged.binding)) :=
    congrArg OrderedMap.ofList hentries
  rw [hrewrites]
  exact OrderedMap.ofList_eq (List.pairwise_map.mpr h.names)

end BindingSet

end Hygiene
