import Hygiene.Proofs.Template.Occurrences
import Hygiene.Template.FreeNames
import Mathlib.Data.List.Induction

/-!
# What the walk over names finds

The walk threads one stack through everything it comes past. It gives the stack back as it got it
from every expression, so each part is walked under exactly the names bound around it, and what it
adds is what is free there: `Expr.walkNames_eq`. From the whole expression it brings back

> `Expr.freeNames_eq`: the free mentions, each name where it first appears.
-/

namespace Hygiene

namespace NameWalk

/-- The walk after it has found the given mentions. -/
def found (w : NameWalk) (mentions : List String) : NameWalk :=
  { w with free := mentions.foldl addNew w.free }

theorem found_append (w : NameWalk) (xs ys : List String) :
    w.found (xs ++ ys) = (w.found xs).found ys := by
  simp only [found, List.foldl_append]

/-- The stack comes back, however many names the binders of a `letIn` have put on it. -/
theorem truncate_bindNames (bound free : List String) (bs : List Binder) :
    (NameWalk.mk (Binder.bindNames bound bs) free).truncate bound.length = ⟨bound, free⟩ := by
  rw [truncate, Binder.drop_bindNames]

end NameWalk

namespace Expr

theorem walkNamesAll_eq {es : List Expr}
    (h : ∀ e ∈ es, ∀ w : NameWalk, e.walkNames w = w.found (e.freeOccurrences w.bound)) :
    ∀ w : NameWalk, walkNamesAll es w = w.found (freeOccurrencesAll w.bound es) := by
  induction es with
  | nil => intro w; rfl
  | cons e es ih =>
    intro w
    rw [walkNamesAll, h e List.mem_cons_self, ih fun e he => h e (List.mem_cons_of_mem _ he),
      freeOccurrencesAll, NameWalk.found_append]
    rfl

theorem walkNamesBindings_eq {bs : List (Binder × Expr)}
    (h : ∀ b ∈ bs, ∀ w : NameWalk, b.2.walkNames w = w.found (b.2.freeOccurrences w.bound)) :
    ∀ w : NameWalk, walkNamesBindings bs w
      = { w.found (freeOccurrencesBindings w.bound bs) with
          bound := Binder.bindNames w.bound (bs.map Prod.fst) } := by
  induction bs with
  | nil => intro w; rfl
  | cons b bs ih =>
    intro w
    obtain ⟨binder, e⟩ := b
    rw [walkNamesBindings, h (binder, e) List.mem_cons_self,
      ih fun b hb => h b (List.mem_cons_of_mem _ hb), freeOccurrencesBindings,
      NameWalk.found_append]
    rfl

/-- **The walk finds what is free**, adds it to what it had found, and gives the stack back. -/
theorem walkNames_eq (e : Expr) :
    ∀ w : NameWalk, e.walkNames w = w.found (e.freeOccurrences w.bound) := by
  induction e with
  | lit v => intro w; rfl
  | name n =>
    intro w
    rw [walkNames, NameWalk.mention, freeOccurrences]
    split <;> rfl
  | ref i => intro w; rfl
  | call f args ih => intro w; exact walkNamesAll_eq ih w
  | letIn bindings body ihb ih =>
    intro w
    rw [walkNames, walkNamesBindings_eq ihb, ih, freeOccurrences, NameWalk.found_append]
    -- behind the body the stack still has the names of all binders on it
    exact NameWalk.truncate_bindNames w.bound _ (bindings.map Prod.fst)
  | seq items ih => intro w; exact walkNamesAll_eq ih w
  | cond c t e ihc iht ihe =>
    intro w
    rw [walkNames, ihc, iht, ihe, freeOccurrences, NameWalk.found_append, NameWalk.found_append]
    rfl

/-- The free names are the free mentions without repetition. -/
theorem freeNames_eq (e : Expr) : e.freeNames = firstAppearances (e.freeOccurrences []) := by
  rw [freeNames, walkNames_eq]
  rfl

end Expr

/-! ## Finding nothing twice -/

section AddNew

variable {α : Type} [BEq α] [LawfulBEq α]

theorem mem_foldl_addNew {b : α} (xs : List α) :
    ∀ {seen : List α}, b ∈ xs.foldl addNew seen ↔ b ∈ seen ∨ b ∈ xs := by
  induction xs with
  | nil => intro seen; simp
  | cons x xs ih => intro seen; rw [List.foldl_cons, ih, mem_addNew, List.mem_cons, or_assoc]

theorem nodup_foldl_addNew (xs : List α) :
    ∀ {seen : List α}, seen.Nodup → (xs.foldl addNew seen).Nodup := by
  induction xs with
  | nil => intro seen h; exact h
  | cons x xs ih => intro seen h; exact ih (nodup_addNew h x)

theorem mem_firstAppearances {b : α} {xs : List α} : b ∈ firstAppearances xs ↔ b ∈ xs := by
  rw [firstAppearances, mem_foldl_addNew]
  simp

theorem addNew_of_mem {seen : List α} {a : α} (h : a ∈ seen) : addNew seen a = seen :=
  if_pos (List.contains_iff_mem.mpr h)

theorem addNew_of_not_mem {seen : List α} {a : α} (h : a ∉ seen) : addNew seen a = seen ++ [a] :=
  if_neg fun hmem => h (List.contains_iff_mem.mp hmem)

theorem filter_addNew (p : α → Bool) (seen : List α) (a : α) :
    (addNew seen a).filter p = if p a then addNew (seen.filter p) a else seen.filter p := by
  by_cases ha : a ∈ seen
  · rw [addNew_of_mem ha]
    split
    next hp => rw [addNew_of_mem (List.mem_filter.mpr ⟨ha, hp⟩)]
    next => rfl
  · rw [addNew_of_not_mem ha, List.filter_append]
    split
    next hp =>
      have hnew : a ∉ seen.filter p := fun hmem => ha (List.mem_filter.mp hmem).1
      rw [addNew_of_not_mem hnew, List.filter_cons_of_pos hp, List.filter_nil]
    next hp => rw [List.filter_cons_of_neg hp, List.filter_nil, List.append_nil]

theorem filter_foldl_addNew (p : α → Bool) (xs : List α) : ∀ seen : List α,
    (xs.foldl addNew seen).filter p = (xs.filter p).foldl addNew (seen.filter p) := by
  induction xs with
  | nil => intro seen; rfl
  | cons x xs ih =>
    intro seen
    rw [List.foldl_cons, ih, filter_addNew, List.filter_cons]
    split <;> rfl

/-- Elements that are left out make no difference to the order in which the others appear. -/
theorem filter_firstAppearances (p : α → Bool) (xs : List α) :
    (firstAppearances xs).filter p = firstAppearances (xs.filter p) :=
  filter_foldl_addNew p xs []

/-- Repetitions may as well be left out beforehand. -/
theorem foldl_addNew_firstAppearances (seen xs : List α) :
    (firstAppearances xs).foldl addNew seen = xs.foldl addNew seen := by
  induction xs using List.reverseRecOn with
  | nil => rfl
  | append_singleton xs x ih =>
    have hlast : firstAppearances (xs ++ [x]) = addNew (firstAppearances xs) x := by
      rw [firstAppearances, List.foldl_append]
      rfl
    rw [List.foldl_append, ← ih, hlast]
    -- a repetition adds nothing on the left, and on the right it was met before
    by_cases hx : x ∈ firstAppearances xs
    · rw [addNew_of_mem hx]
      exact (addNew_of_mem ((mem_foldl_addNew _).mpr (Or.inr hx))).symm
    · rw [addNew_of_not_mem hx, List.foldl_append]

end AddNew

namespace Expr

theorem mem_freeNames {e : Expr} {n : String} : n ∈ e.freeNames ↔ n ∈ e.freeOccurrences [] := by
  rw [freeNames_eq, mem_firstAppearances]

theorem nodup_freeNames (e : Expr) : e.freeNames.Nodup := by
  rw [freeNames_eq]
  exact nodup_foldl_addNew _ List.nodup_nil

end Expr

end Hygiene
