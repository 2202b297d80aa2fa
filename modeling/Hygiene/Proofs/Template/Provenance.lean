import Hygiene.Proofs.OrderedMap
import Hygiene.Proofs.Template.Occurrences
import Hygiene.Template.BindingSet

/-!
# Where the identifiers of generated code come from

No operation on templates makes an identifier up. Those in a rewritten expression stood in it before
or in the map (`Expr.Within.rewrite`), those in a wrapped template stood in it before or in the set
(`BindingSet.Within.wrap`), and those in a set were drawn for it or stood in the listed expressions
(`BindingSet.Within.extend`). So whatever holds of all identifiers there are and of all that are
drawn next, holds of everything that is built from them.

A list that is refused draws as well. `BindingSet.issued` are the identifiers drawn for a list, up to
the name that repeats, and `Supply.Issues` says that they are what the supply gave from one state to
another.
-/

namespace Hygiene

namespace Expr

variable {S : Ident → Prop}

/-- Every identifier that stands in the expression, read or bound, has the property. -/
def Within (S : Ident → Prop) (e : Expr) : Prop := ∀ i ∈ e.refIdents ++ e.boundIdents, S i

instance (S : Ident → Prop) [DecidablePred S] (e : Expr) : Decidable (e.Within S) :=
  inferInstanceAs (Decidable (∀ i ∈ e.refIdents ++ e.boundIdents, S i))

theorem Within.mono {T : Ident → Prop} {e : Expr} (h : e.Within S) (hST : ∀ i, S i → T i) :
    e.Within T :=
  fun i hi => hST i (h i hi)

theorem within_lit (v : Value) : (lit v).Within S := by
  intro i hi
  cases hi

theorem within_name (n : String) : (name n).Within S := by
  intro i hi
  cases hi

theorem within_ref {i : Ident} : (ref i).Within S ↔ S i := by
  simp [Within, refIdents, boundIdents]

theorem within_seq {items : List Expr} : (seq items).Within S ↔ ∀ e ∈ items, e.Within S := by
  simp only [Within, refIdents, boundIdents, List.mem_append, mem_refIdentsAll, mem_boundIdentsAll]
  constructor
  · intro h e he i hi
    exact h i (hi.imp (fun hi => ⟨e, he, hi⟩) fun hi => ⟨e, he, hi⟩)
  · rintro h i (⟨e, he, hi⟩ | ⟨e, he, hi⟩)
    · exact h e he i (Or.inl hi)
    · exact h e he i (Or.inr hi)

theorem within_call {f : String} {args : List Expr} :
    (call f args).Within S ↔ ∀ e ∈ args, e.Within S := within_seq

theorem within_cond {c t e : Expr} :
    (cond c t e).Within S ↔ c.Within S ∧ t.Within S ∧ e.Within S := by
  simp only [Within, refIdents, boundIdents, List.mem_append, or_imp, forall_and]
  constructor
  · rintro ⟨⟨⟨hc, ht⟩, he⟩, ⟨hc', ht'⟩, he'⟩
    exact ⟨⟨hc, hc'⟩, ⟨ht, ht'⟩, he, he'⟩
  · rintro ⟨⟨hc, hc'⟩, ⟨ht, ht'⟩, he, he'⟩
    exact ⟨⟨⟨hc, ht⟩, he⟩, ⟨hc', ht'⟩, he'⟩

theorem within_letIn_nil {body : Expr} : (letIn [] body).Within S ↔ body.Within S := Iff.rfl

theorem within_letIn_cons {b : Binder} {e : Expr} {rest : List (Binder × Expr)} {body : Expr} :
    (letIn ((b, e) :: rest) body).Within S
      ↔ (∀ i ∈ b.idents, S i) ∧ e.Within S ∧ (letIn rest body).Within S := by
  simp only [Within, refIdents, refIdentsBindings, boundIdents, boundIdentsBindings,
    List.mem_append, or_imp, forall_and]
  constructor
  · rintro ⟨⟨⟨he, hrest⟩, hbody⟩, ⟨⟨he', hb⟩, hrest'⟩, hbody'⟩
    exact ⟨hb, ⟨he, he'⟩, ⟨hrest, hbody⟩, hrest', hbody'⟩
  · rintro ⟨hb, ⟨he, he'⟩, ⟨hrest, hbody⟩, hrest', hbody'⟩
    exact ⟨⟨⟨he, hrest⟩, hbody⟩, ⟨⟨he', hb⟩, hrest'⟩, hbody'⟩

theorem within_letIn {bindings : List (Binder × Expr)} {body : Expr} :
    (letIn bindings body).Within S
      ↔ (∀ b ∈ bindings, (∀ i ∈ b.1.idents, S i) ∧ b.2.Within S) ∧ body.Within S := by
  induction bindings with
  | nil => simp [within_letIn_nil]
  | cons b rest ih => rw [within_letIn_cons, ih, List.forall_mem_cons, and_assoc, and_assoc]

/-- Rewriting brings in the identifiers of the map and no others. -/
theorem Within.rewrite {rewrites : Rewrites} (hrange : ∀ n i, rewrites.get? n = some i → S i)
    {e : Expr} : ∀ {shadowed : List String}, e.Within S → (e.rewrite rewrites shadowed).Within S := by
  induction e using inductPeel with
  | lit v => intro shadowed _; exact within_lit v
  | name n =>
    intro shadowed _
    rw [rewrite_name]
    by_cases hn : n ∈ shadowed
    · rw [if_pos hn]
      exact within_name n
    · rw [if_neg hn]
      cases hget : rewrites.get? n with
      | none => exact within_name n
      | some i => exact within_ref.mpr (hrange n i hget)
  | ref i => intro shadowed h; exact h
  | call f args ih =>
    intro shadowed h
    rw [Expr.rewrite, rewriteAll_eq_map, within_call]
    intro x hx
    obtain ⟨e, he, rfl⟩ := List.mem_map.mp hx
    exact ih e he (within_call.mp h e he)
  | letNil body ih => intro shadowed h; exact ih h
  | letCons b e rest body ihe ih =>
    intro shadowed h
    obtain ⟨hb, he, hrest⟩ := within_letIn_cons.mp h
    exact within_letIn_cons.mpr ⟨hb, ihe he, ih hrest⟩
  | seq items ih =>
    intro shadowed h
    rw [Expr.rewrite, rewriteAll_eq_map, within_seq]
    intro x hx
    obtain ⟨e, he, rfl⟩ := List.mem_map.mp hx
    exact ih e he (within_seq.mp h e he)
  | cond c t e ihc iht ihe =>
    intro shadowed h
    obtain ⟨hc, ht, he⟩ := within_cond.mp h
    exact within_cond.mpr ⟨ihc hc, iht ht, ihe he⟩

theorem Within.substitute {rewrites : Rewrites} (hrange : ∀ i ∈ rewrites.values, S i) {e : Expr}
    (h : e.Within S) : (e.substitute rewrites).Within S := by
  rw [substitute_eq_rewrite]
  exact h.rewrite fun n i hget => hrange i (OrderedMap.mem_values_of_get? hget)

end Expr

/-! ## Drawing for a set -/

/-- The supply gives these identifiers, one by one, on the way from one state to another. -/
inductive Supply.Issues : Supply → List Ident → Supply → Prop where
  | nothing (s : Supply) : Issues s [] s
  | more {s s' : Supply} {hint : String} {issued : List Ident} :
    Issues (s.fresh hint).2 issued s' → Issues s ((s.fresh hint).1 :: issued) s'

namespace Supply

theorem Issues.trans {a b c : Supply} {is js : List Ident} (h : Issues a is b)
    (k : Issues b js c) : Issues a (is ++ js) c := by
  induction h with
  | nothing s => exact k
  | more _ ih => exact (ih k).more

theorem issues_freshMany (s : Supply) (hint : String) (n : Nat) :
    Issues s (s.freshMany hint n).1 (s.freshMany hint n).2 := by
  induction n generalizing s with
  | zero => exact .nothing s
  | succ n ih => exact (ih (s.fresh hint).2).more

/-- The numbers go up one by one from where the supply stood. -/
theorem Issues.ids {s s' : Supply} {issued : List Ident} (h : Issues s issued s') :
    issued.map Ident.id = (List.range issued.length).map (fun k => s.next + .ofNat k)
      ∧ s'.next = s.next + .ofNat issued.length := by
  induction h with
  | nothing s => simp
  | @more s s' hint issued _ ih =>
    -- the first one has the number the supply stood at, the others count from the next one
    obtain ⟨hids, hnext⟩ := ih
    have hstep : ∀ k, s.next + 1 + UInt64.ofNat k = s.next + .ofNat (k + 1) := by
      intro k
      rw [UInt64.ofNat_add, UInt64.add_assoc, UInt64.add_comm 1]
      rfl
    constructor
    · rw [List.map_cons, List.length_cons, List.range_succ_eq_map, List.map_cons, List.map_map,
        hids, fresh_id, fresh_next]
      rw [List.map_congr_left fun k _ => hstep k]
      exact congrArg (· :: _) (UInt64.add_zero s.next).symm
    · rw [hnext, fresh_next, hstep, List.length_cons]

end Supply

namespace BindingSet

variable {S : Ident → Prop}

/-- Every identifier of the set has the property: the keys, the bound identifiers, and those in the
listed expressions. -/
structure Within (S : Ident → Prop) (set : BindingSet) : Prop where
  keys : ∀ i ∈ set.names.values ++ set.staged.keys, S i
  bindings : ∀ s ∈ set.staged.values, S s.binding
  forms : ∀ s ∈ set.staged.values, s.form.Within S

/-- The identifiers drawn to add bindings to a set, those for a list that is refused included. -/
def issued (set : BindingSet) : List (String × Expr) → Supply → List Ident
  | [], _ => []
  | (name, form) :: rest, supply =>
    if set.names.contains name then []
    else
      (supply.fresh name).1 :: ((supply.fresh name).2.fresh name).1 ::
        issued (set.stage name form supply).1 rest (set.stage name form supply).2

theorem issues_extend (bindings : List (String × Expr)) :
    ∀ (set : BindingSet) (supply : Supply),
      supply.Issues (set.issued bindings supply) (set.extend bindings supply).2 := by
  induction bindings with
  | nil => intro set supply; exact .nothing supply
  | cons b rest ih =>
    intro set supply
    obtain ⟨name, form⟩ := b
    cases hname : set.names.contains name with
    | true =>
      rw [extend_of_contains hname, issued, if_pos hname]
      exact .nothing supply
    | false =>
      rw [extend_of_not_contains hname, issued, if_neg (by simp [hname])]
      exact (ih _ _).more.more

theorem issues_ofList (bindings : List (String × Expr)) (supply : Supply) :
    supply.Issues (issued {} bindings supply) (ofList bindings supply).2 :=
  issues_extend bindings {} supply

/-- The identifier that holds the value of a name is bound by one of the pairings. -/
theorem mem_of_binding? {set : BindingSet} {name : String} {i : Ident}
    (h : set.binding? name = some i) : ∃ s ∈ set.staged.values, s.binding = i := by
  obtain ⟨s, hs, rfl⟩ := Option.map_eq_some_iff.mp h
  obtain ⟨key, -, hget⟩ := Option.bind_eq_some_iff.mp hs
  exact ⟨s, OrderedMap.mem_values_of_get? hget, rfl⟩

namespace Within

theorem mono {T : Ident → Prop} {set : BindingSet} (h : set.Within S) (hST : ∀ i, S i → T i) :
    set.Within T :=
  ⟨fun i hi => hST i (h.keys i hi), fun s hs => hST _ (h.bindings s hs),
    fun s hs => (h.forms s hs).mono hST⟩

theorem empty : Within S {} := by
  constructor <;> intro _ h <;> cases h

theorem stage {set : BindingSet} (h : set.Within S) {name : String} {form : Expr}
    (hform : form.Within S) {supply : Supply} (hbinding : S (supply.fresh name).1)
    (hkey : S ((supply.fresh name).2.fresh name).1) :
    (set.stage name form supply).1.Within S := by
  constructor
  · intro i hi
    rcases List.mem_append.mp hi with hi | hi
    · rcases OrderedMap.mem_values_insert hi with hi | rfl
      · exact h.keys i (List.mem_append_left _ hi)
      · exact hkey
    · rcases OrderedMap.mem_keys_insert hi with hi | rfl
      · exact h.keys i (List.mem_append_right _ hi)
      · exact hkey
  · intro s hs
    rcases OrderedMap.mem_values_insert hs with hs | rfl
    · exact h.bindings s hs
    · exact hbinding
  · intro s hs
    rcases OrderedMap.mem_values_insert hs with hs | rfl
    · exact h.forms s hs
    · exact hform

/-- A set has the identifiers drawn for it and those of the listed expressions. -/
theorem extend {bindings : List (String × Expr)} :
    ∀ {set : BindingSet} {supply : Supply} {result : BindingSet}, set.Within S →
      (∀ b ∈ bindings, b.2.Within S) → (∀ i ∈ set.issued bindings supply, S i) →
      (set.extend bindings supply).1 = .ok result → result.Within S := by
  induction bindings with
  | nil =>
    intro set supply result hset _ _ hok
    obtain rfl : set = result := Except.ok.inj hok
    exact hset
  | cons b rest ih =>
    intro set supply result hset hforms hissued hok
    obtain ⟨name, form⟩ := b
    cases hname : set.names.contains name with
    | true =>
      rw [extend_of_contains hname] at hok
      cases hok
    | false =>
      rw [extend_of_not_contains hname] at hok
      rw [issued, if_neg (by simp [hname])] at hissued
      obtain ⟨hbinding, hkey, hissued⟩ := by
        simpa only [List.forall_mem_cons] using hissued
      obtain ⟨hform, hforms⟩ := List.forall_mem_cons.mp hforms
      exact ih (hset.stage hform hbinding hkey) hforms hissued hok

theorem ofList {bindings : List (String × Expr)} {supply : Supply} {set : BindingSet}
    (hforms : ∀ b ∈ bindings, b.2.Within S) (hissued : ∀ i ∈ issued {} bindings supply, S i)
    (hok : (BindingSet.ofList bindings supply).1 = .ok set) : set.Within S :=
  empty.extend hforms hissued hok

variable {set : BindingSet}

theorem binding? (h : set.Within S) {name : String} {i : Ident}
    (hi : set.binding? name = some i) : S i := by
  obtain ⟨s, hs, rfl⟩ := mem_of_binding? hi
  exact h.bindings s hs

theorem rewrites (h : set.Within S) : ∀ i ∈ set.rewrites.values, S i := by
  intro i hi
  obtain ⟨⟨name, j⟩, hpair, rfl⟩ := List.mem_map.mp (OrderedMap.mem_values_ofList hi)
  obtain ⟨⟨n, key⟩, -, hfound⟩ := List.mem_filterMap.mp hpair
  obtain ⟨s, hs, hsj⟩ := Option.map_eq_some_iff.mp hfound
  obtain ⟨-, rfl⟩ := Prod.mk.inj hsj
  exact h.bindings s (OrderedMap.mem_values_of_get? hs)

theorem emit (h : set.Within S) {body : Expr} (hbody : body.Within S) :
    (set.emit body).Within S := by
  refine Expr.within_letIn.mpr ⟨fun b hb => ?_, hbody⟩
  obtain ⟨s, hs, rfl⟩ := List.mem_map.mp hb
  refine ⟨fun i hi => ?_, h.forms s hs⟩
  rw [List.mem_singleton.mp hi]
  exact h.bindings s hs

theorem wrap (h : set.Within S) {body : Expr} (hbody : body.Within S) :
    (set.wrap body).Within S :=
  h.emit (hbody.substitute h.rewrites)

end Within

end BindingSet

/-! ## Expanding at once -/

/-- Expanding at once draws what making the set draws. -/
theorem onceOnly_supply (bindings : List (String × Expr)) (body : Expr) (supply : Supply) :
    (onceOnly bindings body supply).2 = (BindingSet.ofList bindings supply).2 := by
  unfold onceOnly
  split <;> simp_all only

/-- Expanding at once wraps the body with the set. -/
theorem eq_wrap_of_onceOnly_ok {bindings : List (String × Expr)} {body e : Expr} {supply : Supply}
    (h : (onceOnly bindings body supply).1 = .ok e) :
    ∃ set, (BindingSet.ofList bindings supply).1 = .ok set ∧ e = set.wrap body := by
  unfold onceOnly at h
  split at h
  next set _ hset => exact ⟨set, congrArg Prod.fst hset, (Except.ok.inj h).symm⟩
  next => cases h

/-- What is expanded at once has the identifiers drawn for it and those of its parts. -/
theorem Expr.Within.onceOnly {S : Ident → Prop} {bindings : List (String × Expr)} {body e : Expr}
    {supply : Supply} (hforms : ∀ b ∈ bindings, b.2.Within S) (hbody : body.Within S)
    (hissued : ∀ i ∈ BindingSet.issued {} bindings supply, S i)
    (h : (Hygiene.onceOnly bindings body supply).1 = .ok e) : e.Within S := by
  obtain ⟨set, hset, rfl⟩ := eq_wrap_of_onceOnly_ok h
  exact (BindingSet.Within.ofList hforms hissued hset).wrap hbody

end Hygiene
