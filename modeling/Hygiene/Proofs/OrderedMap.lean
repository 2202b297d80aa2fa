import Hygiene.OrderedMap
import Mathlib.Data.List.Induction
import Mathlib.Data.List.Nodup

/-!
# Ordered maps as lists with distinct keys

Entries whose keys are pairwise distinct are the map: a lookup finds the value next to its key
(`lookup_map_of_mem`, `lookup_filterMap`) and storing the entries one after another gives them back as
they are (`ofList_eq`). Keys are told apart by `==`. Where names that should be keys are not distinct,
one of them is the first to show it (`exists_first_repeat`).
-/

namespace Hygiene

/-- Of names that are not distinct, one is the first to repeat an earlier one. -/
theorem exists_first_repeat {names : List String} (h : ¬ names.Nodup) :
    ∃ before name behind, names = before ++ name :: behind ∧ before.Nodup ∧ name ∈ before := by
  induction names using List.reverseRecOn with
  | nil => exact absurd List.nodup_nil h
  | append_singleton names last ih =>
    by_cases hnames : names.Nodup
    · refine ⟨names, last, [], rfl, hnames, ?_⟩
      by_contra hlast
      rw [← List.concat_eq_append] at h
      exact h (hnames.concat hlast)
    · obtain ⟨before, name, behind, rfl, hnodup, hmem⟩ := ih hnames
      exact ⟨before, name, behind ++ [last], by simp, hnodup, hmem⟩

/-- A lookup among entries with distinct keys, each made from one member of a list, finds what was
made from the same member. -/
theorem lookup_map_of_mem {π κ α : Type} [BEq κ] [ReflBEq κ] {key : π → κ} (val : π → α)
    {ps : List π} (hkeys : ps.Pairwise fun p q => (key q == key p) = false) {p : π} (hp : p ∈ ps) :
    (ps.map fun p => (key p, val p)).lookup (key p) = some (val p) := by
  induction ps with
  | nil => cases hp
  | cons q ps ih =>
    rw [List.pairwise_cons] at hkeys
    rw [List.map_cons, List.lookup_cons]
    rcases List.mem_cons.mp hp with rfl | hp
    · rw [beq_self_eq_true]
    · rw [hkeys.1 p hp]
      exact ih hkeys.2 hp

namespace OrderedMap

variable {κ α : Type} [BEq κ]

theorem contains_eq_false_iff {m : OrderedMap κ α} {k : κ} :
    m.contains k = false ↔ ∀ e ∈ m.entries, (k == e.1) = false := by
  simp [contains]

theorem insert_of_not_contains {m : OrderedMap κ α} {k : κ} (h : m.contains k = false) (v : α) :
    m.insert k v = ⟨m.entries ++ [(k, v)]⟩ := by
  simp [insert, h]

theorem get?_eq_none_iff {m : OrderedMap κ α} {k : κ} :
    m.get? k = none ↔ ∀ e ∈ m.entries, (k == e.1) = false := by
  rw [← contains_eq_false_iff, ← isSome_get?, Option.isSome_eq_false_iff, Option.isNone_iff_eq_none]

theorem modify_of_get?_eq_none {m : OrderedMap κ α} {k : κ} (h : m.get? k = none) (f : α → α) :
    m.modify k f = m := by
  have hsame : ∀ e ∈ m.entries, (if k == e.1 then (e.1, f e.2) else e) = e := fun e he => by
    rw [get?_eq_none_iff.mp h e he]
    rfl
  rw [modify, List.map_congr_left hsame, List.map_id']

theorem get?_mapValues {β : Type} (f : α → β) (m : OrderedMap κ α) (k : κ) :
    (m.mapValues f).get? k = (m.get? k).map f := by
  unfold get? mapValues
  induction m.entries with
  | nil => rfl
  | cons e rest ih =>
    rw [List.map_cons, List.lookup_cons, List.lookup_cons]
    cases k == e.1 with
    | true => rfl
    | false => exact ih

/-- Something found stands in the map, under a key that matches. -/
theorem mem_of_get?_eq_some {m : OrderedMap κ α} {k : κ} {v : α} (h : m.get? k = some v) :
    ∃ e ∈ m.entries, (k == e.1) = true ∧ e.2 = v := by
  unfold get? at h
  induction hm : m.entries generalizing m with
  | nil => rw [hm] at h; cases h
  | cons e rest ih =>
    rw [hm, List.lookup_cons] at h
    cases hk : k == e.1 with
    | true =>
      rw [hk] at h
      exact ⟨e, List.mem_cons_self, hk, Option.some.inj h⟩
    | false =>
      rw [hk] at h
      obtain ⟨e', he', hmatch⟩ := ih (m := ⟨rest⟩) h rfl
      exact ⟨e', List.mem_cons_of_mem _ he', hmatch⟩

theorem mem_keys_insert {m : OrderedMap κ α} {k : κ} {v : α} {k' : κ}
    (h : k' ∈ (m.insert k v).keys) : k' ∈ m.keys ∨ k' = k := by
  cases hk : m.contains k with
  | true =>
    rw [keys_insert_of_contains hk] at h
    exact Or.inl h
  | false =>
    rw [keys_insert_of_not_contains hk] at h
    exact (List.mem_append.mp h).imp_right List.mem_singleton.mp

theorem mem_values_insert {m : OrderedMap κ α} {k : κ} {v v' : α}
    (h : v' ∈ (m.insert k v).values) : v' ∈ m.values ∨ v' = v := by
  obtain ⟨e, he, rfl⟩ := List.mem_map.mp h
  unfold insert at he
  split at he
  next =>
    obtain ⟨e', he', rfl⟩ := List.mem_map.mp he
    by_cases hk : k == e'.1
    · rw [if_pos hk]
      exact Or.inr rfl
    · rw [if_neg hk]
      exact Or.inl (List.mem_map_of_mem he')
  next =>
    rcases List.mem_append.mp he with he | he
    · exact Or.inl (List.mem_map_of_mem he)
    · exact Or.inr (congrArg Prod.snd (List.mem_singleton.mp he))

/-- Storing pairs one after another brings in nothing but their values. -/
theorem mem_values_foldl_insert {v : α} (pairs : List (κ × α)) :
    ∀ {m : OrderedMap κ α}, v ∈ (pairs.foldl (fun m p => m.insert p.1 p.2) m).values →
      v ∈ m.values ∨ v ∈ pairs.map Prod.snd := by
  induction pairs with
  | nil => intro m h; exact Or.inl h
  | cons p rest ih =>
    intro m h
    rw [List.map_cons, List.mem_cons]
    rcases ih h with h | h
    · rcases mem_values_insert h with h | h
      · exact Or.inl h
      · exact Or.inr (Or.inl h)
    · exact Or.inr (Or.inr h)

theorem mem_values_ofList {pairs : List (κ × α)} {v : α} (h : v ∈ (ofList pairs).values) :
    v ∈ pairs.map Prod.snd :=
  (mem_values_foldl_insert pairs h).resolve_left List.not_mem_nil

theorem mem_values_of_get? {m : OrderedMap κ α} {k : κ} {v : α} (h : m.get? k = some v) :
    v ∈ m.values := by
  obtain ⟨e, he, -, rfl⟩ := mem_of_get?_eq_some h
  exact List.mem_map_of_mem he

/-- Entries with distinct keys go in one behind the other. -/
theorem foldl_insert (pairs : List (κ × α)) :
    ∀ earlier : List (κ × α),
      (earlier ++ pairs).Pairwise (fun p q => (q.1 == p.1) = false) →
      pairs.foldl (fun m p => m.insert p.1 p.2) (⟨earlier⟩ : OrderedMap κ α)
        = ⟨earlier ++ pairs⟩ := by
  induction pairs with
  | nil => intro earlier _; rw [List.append_nil]; rfl
  | cons p rest ih =>
    intro earlier hkeys
    have hnew : (⟨earlier⟩ : OrderedMap κ α).contains p.1 = false :=
      contains_eq_false_iff.mpr fun e he =>
        (List.pairwise_append.mp hkeys).2.2 e he p List.mem_cons_self
    have hassoc : earlier ++ p :: rest = earlier ++ [p] ++ rest := by
      rw [List.append_assoc]
      rfl
    rw [hassoc] at hkeys ⊢
    rw [List.foldl_cons, insert_of_not_contains hnew, ih _ hkeys]

theorem ofList_eq {pairs : List (κ × α)}
    (hkeys : pairs.Pairwise fun p q => (q.1 == p.1) = false) : ofList pairs = ⟨pairs⟩ :=
  foldl_insert pairs [] hkeys

/-- A lookup among entries with distinct keys of which some are left out and the others get new values:
it finds what has become of the value that was there before. -/
theorem lookup_filterMap {β : Type} [LawfulBEq κ] (f : α → Option β) {entries : List (κ × α)}
    (hkeys : entries.Pairwise fun p q => (q.1 == p.1) = false) (k : κ) :
    (entries.filterMap fun e => (f e.2).map fun v => (e.1, v)).lookup k
      = (entries.lookup k).bind f := by
  induction entries with
  | nil => rfl
  | cons e entries ih =>
    obtain ⟨hother, hrest⟩ := List.pairwise_cons.mp hkeys
    have htail := ih hrest
    rw [List.lookup_cons, List.filterMap_cons]
    cases hk : k == e.1 with
    | false =>
      cases hv : f e.2 with
      | none => exact htail
      | some v =>
        rw [Option.map_some, List.lookup_cons, hk]
        exact htail
    | true =>
      obtain rfl : k = e.1 := eq_of_beq hk
      cases hv : f e.2 with
      | none =>
        -- no other entry has the key of the one left out
        have habsent : entries.lookup e.1 = none := by
          refine get?_eq_none_iff (m := ⟨entries⟩).mpr fun e' he' => ?_
          rw [BEq.comm]
          exact hother e' he'
        rw [habsent] at htail
        exact htail.trans hv.symm
      | some v =>
        rw [Option.map_some, List.lookup_cons, hk]
        exact hv.symm

end OrderedMap

end Hygiene
