import Hygiene.Proofs.Template.Minting
import Hygiene.Proofs.Template.Provenance

/-!
# The same template under other numbers

Generated code has whatever numbers the supply had come to when it was made. `Expr.renumber` puts
other numbers in their place and leaves everything else as it is, hints included. Rewriting never
looks at a number, so it commutes with any renumbering (`Expr.renumber_rewrite`), and so does
wrapping, as long as the identifiers of a set are kept apart (`renumber_wrap`).

For one list of bindings and two states of the supply, `Supply.shift` is the renumbering between
what is drawn from the one and what is drawn from the other (`map_renumber_drawn`). It moves the
identifiers drawn and leaves older ones where they are.
-/

namespace Hygiene

/-- The identifier under another number. -/
def Ident.renumber (f : UInt64 → UInt64) (i : Ident) : Ident := ⟨f i.id, i.hint⟩

namespace Binder

def renumber (f : UInt64 → UInt64) : Binder → Binder
  | name n => name n
  | ident i => ident (i.renumber f)

@[simp] theorem bindName_renumber (f : UInt64 → UInt64) (bound : List String) (b : Binder) :
    (b.renumber f).bindName bound = b.bindName bound := by
  cases b <;> rfl

end Binder

namespace Expr

variable (f : UInt64 → UInt64)

mutual

/-- The expression with every identifier under another number, read or bound. -/
def renumber : Expr → Expr
  | lit v => lit v
  | name n => name n
  | ref i => ref (i.renumber f)
  | call g args => call g (renumberAll args)
  | letIn bindings body => letIn (renumberBindings bindings) (renumber body)
  | seq items => seq (renumberAll items)
  | cond c t e => cond (renumber c) (renumber t) (renumber e)

def renumberAll : List Expr → List Expr
  | [] => []
  | e :: es => renumber e :: renumberAll es

def renumberBindings : List (Binder × Expr) → List (Binder × Expr)
  | [] => []
  | (b, e) :: rest => (b.renumber f, renumber e) :: renumberBindings rest

end

variable {f}

theorem renumberAll_eq_map (es : List Expr) : renumberAll f es = es.map (renumber f) := by
  induction es with
  | nil => rfl
  | cons e es ih => rw [renumberAll, ih, List.map_cons]

theorem renumberBindings_eq_map (bs : List (Binder × Expr)) :
    renumberBindings f bs = bs.map fun b => (b.1.renumber f, b.2.renumber f) := by
  induction bs with
  | nil => rfl
  | cons b bs ih => rw [renumberBindings, ih, List.map_cons]

/-- An expression whose numbers all stay is the same expression. -/
theorem renumber_eq_self {e : Expr} (h : e.Within fun i => f i.id = i.id) : e.renumber f = e := by
  have hident : ∀ {i : Ident}, f i.id = i.id → i.renumber f = i :=
    fun hi => congrArg (Ident.mk · _) hi
  induction e with
  | lit v => rfl
  | name n => rfl
  | ref i => rw [renumber, hident (within_ref.mp h)]
  | call g args ih =>
    rw [renumber, renumberAll_eq_map,
      List.map_congr_left fun e he => ih e he (within_call.mp h e he), List.map_id']
  | letIn bindings body ihb ih =>
    obtain ⟨hbindings, hbody⟩ := within_letIn.mp h
    have hsame : ∀ b ∈ bindings, (b.1.renumber f, b.2.renumber f) = b := by
      rintro ⟨b, e⟩ hb
      obtain ⟨hbinder, hvalue⟩ := hbindings _ hb
      have hb' : b.renumber f = b := by
        cases b with
        | name n => rfl
        | ident i => exact congrArg Binder.ident (hident (hbinder i List.mem_cons_self))
      exact Prod.ext hb' (ihb _ hb hvalue)
    rw [renumber, renumberBindings_eq_map, List.map_congr_left hsame, List.map_id', ih hbody]
  | seq items ih =>
    rw [renumber, renumberAll_eq_map,
      List.map_congr_left fun e he => ih e he (within_seq.mp h e he), List.map_id']
  | cond c t e ihc iht ihe =>
    obtain ⟨hc, ht, he⟩ := within_cond.mp h
    rw [renumber, ihc hc, iht ht, ihe he]

/-- Rewriting does not look at numbers. -/
theorem renumber_rewrite (rewrites : Rewrites) (e : Expr) : ∀ shadowed : List String,
    (e.rewrite rewrites shadowed).renumber f
      = (e.renumber f).rewrite (rewrites.mapValues (Ident.renumber f)) shadowed := by
  induction e using inductPeel with
  | lit v => intro shadowed; rfl
  | name n =>
    intro shadowed
    rw [renumber, rewrite_name, rewrite_name, OrderedMap.get?_mapValues]
    by_cases hn : n ∈ shadowed
    · rw [if_pos hn, if_pos hn]
      rfl
    · rw [if_neg hn, if_neg hn]
      cases rewrites.get? n <;> rfl
  | ref i => intro shadowed; rfl
  | call g args ih =>
    intro shadowed
    rw [rewrite, renumber, renumber, rewrite]
    simp only [rewriteAll_eq_map, renumberAll_eq_map, List.map_map]
    exact congrArg (call g) (List.map_congr_left fun e he => ih e he shadowed)
  | letNil body ih => intro shadowed; exact congrArg (letIn []) (ih shadowed)
  | letCons b e rest body ihe ih =>
    intro shadowed
    -- the other bindings and the body, as they stand behind the first binder on either side
    obtain ⟨r, d, hrest, hwhole⟩ := rewrite_letIn_cons rewrites shadowed b e rest body
    obtain ⟨r', d', hrest', hwhole'⟩ :=
      rewrite_letIn_cons (rewrites.mapValues (Ident.renumber f)) shadowed (b.renumber f)
        (e.renumber f) (renumberBindings f rest) (body.renumber f)
    have hothers := ih (b.bindName shadowed)
    rw [hrest, ← Binder.bindName_renumber] at hothers
    obtain ⟨hbindings, hbody⟩ := Expr.letIn.inj (hothers.trans hrest')
    rw [renumber, renumberBindings, hwhole, hwhole', renumber, renumberBindings, ihe, hbindings,
      hbody]
  | seq items ih =>
    intro shadowed
    rw [rewrite, renumber, renumber, rewrite]
    simp only [rewriteAll_eq_map, renumberAll_eq_map, List.map_map]
    exact congrArg seq (List.map_congr_left fun e he => ih e he shadowed)
  | cond c t e ihc iht ihe =>
    intro shadowed
    rw [rewrite, renumber, renumber, rewrite, ihc, iht, ihe]

end Expr

namespace BindingSet

/-- A pairing under other numbers. -/
def Pairing.renumber (f : UInt64 → UInt64) (p : Pairing) : Pairing :=
  ⟨p.name, p.key.renumber f, ⟨p.staged.binding.renumber f, p.staged.form.renumber f⟩⟩

/-- Wrapping under other numbers is wrapping with the set under other numbers. -/
theorem renumber_wrap {f : UInt64 → UInt64} {ps : List Pairing} (hdist : Distinct ps)
    (hdist' : Distinct (ps.map (Pairing.renumber f))) (body : Expr) :
    ((paired ps).wrap body).renumber f
      = (paired (ps.map (Pairing.renumber f))).wrap (body.renumber f) := by
  have hrewrites : (paired (ps.map (Pairing.renumber f))).rewrites
      = (paired ps).rewrites.mapValues (Ident.renumber f) := by
    rw [rewrites_paired hdist, rewrites_paired hdist', OrderedMap.mapValues, List.map_map,
      List.map_map]
    rfl
  rw [wrap, wrap, emit, emit, Expr.renumber, Expr.renumberBindings_eq_map, hrewrites,
    Expr.substitute_eq_rewrite, Expr.substitute_eq_rewrite, Expr.renumber_rewrite,
    values_staged_paired, values_staged_paired]
  simp only [List.map_map]
  rfl

/-- What holds of every pairing holds of the set. -/
theorem within_paired {S : Ident → Prop} {ps : List Pairing}
    (h : ∀ p ∈ ps, S p.key ∧ S p.staged.binding ∧ p.staged.form.Within S) :
    (paired ps).Within S := by
  constructor
  · intro i hi
    have hmem : i ∈ ps.map Pairing.key := by
      simpa [paired, OrderedMap.values, OrderedMap.keys] using hi
    obtain ⟨p, hp, rfl⟩ := List.mem_map.mp hmem
    exact (h p hp).1
  · intro s hs
    rw [values_staged_paired] at hs
    obtain ⟨p, hp, rfl⟩ := List.mem_map.mp hs
    exact (h p hp).2.1
  · intro s hs
    rw [values_staged_paired] at hs
    obtain ⟨p, hp, rfl⟩ := List.mem_map.mp hs
    exact (h p hp).2.2

end BindingSet

/-! ## From one state of the supply to another -/

namespace Supply

/-- Move what is drawn from `s` to where `t` draws it. What is older stays. -/
def shift (s t : Supply) (id : UInt64) : UInt64 :=
  if id < s.next then id else id - s.next + t.next

variable {s t : Supply}

theorem shift_of_lt {id : UInt64} (h : id < s.next) : shift s t id = id := if_pos h

/-- The numbers drawn from `s` go to the numbers drawn from `t`, place by place. -/
theorem shift_drawn {k : Nat} (hk : s.next.toNat + k < 2 ^ 64) :
    shift s t (.ofNat (s.next.toNat + k)) = .ofNat (t.next.toNat + k) := by
  have hnot : ¬ UInt64.ofNat (s.next.toNat + k) < s.next := by
    rw [UInt64.lt_iff_toNat_lt, UInt64.toNat_ofNat', Nat.mod_eq_of_lt hk]
    omega
  rw [shift, if_neg hnot, UInt64.ofNat_add, UInt64.ofNat_add, UInt64.ofNat_toNat,
    UInt64.ofNat_toNat, UInt64.add_comm s.next, UInt64.add_sub_cancel, UInt64.add_comm]

/-- The numbers that are older than both states, and those that are drawn from the first one where
the second one has room for as many. -/
def Common (s t : Supply) (id : UInt64) : Prop :=
  id < s.next ∧ id < t.next
    ∨ ∃ k, s.next.toNat + k < 2 ^ 64 ∧ t.next.toNat + k < 2 ^ 64 ∧ id = .ofNat (s.next.toNat + k)

/-- No two of these numbers are moved to one. -/
theorem shift_injective {a b : UInt64} (ha : Common s t a) (hb : Common s t b)
    (h : shift s t a = shift s t b) : a = b := by
  rcases ha with ⟨has, hat⟩ | ⟨j, hjs, hjt, rfl⟩
  · rcases hb with ⟨hbs, -⟩ | ⟨k, hks, hkt, rfl⟩
    · rwa [shift_of_lt has, shift_of_lt hbs] at h
    · -- an older number stays below the second state, a drawn one goes to or above it
      rw [shift_of_lt has, shift_drawn hks] at h
      rw [h, UInt64.lt_iff_toNat_lt, UInt64.toNat_ofNat', Nat.mod_eq_of_lt hkt] at hat
      omega
  · rcases hb with ⟨hbs, hbt⟩ | ⟨k, hks, hkt, rfl⟩
    · rw [shift_of_lt hbs, shift_drawn hjs] at h
      rw [← h, UInt64.lt_iff_toNat_lt, UInt64.toNat_ofNat', Nat.mod_eq_of_lt hjt] at hbt
      omega
    · rw [shift_drawn hjs, shift_drawn hks] at h
      have hnat := congrArg UInt64.toNat h
      rw [UInt64.toNat_ofNat', UInt64.toNat_ofNat', Nat.mod_eq_of_lt hjt,
        Nat.mod_eq_of_lt hkt] at hnat
      rw [show j = k by omega]

end Supply

namespace BindingSet

variable {s t : Supply}

/-- What is drawn from the one is what is drawn from the other, under other numbers. -/
theorem map_renumber_drawn (bs : List (String × Expr)) : ∀ {k : Nat},
    s.next.toNat + k + 2 * bs.length ≤ 2 ^ 64 →
    (∀ b ∈ bs, b.2.Within fun i => i.id < s.next) →
    (drawn (s.next.toNat + k) bs).map (Pairing.renumber (Supply.shift s t))
      = drawn (t.next.toNat + k) bs := by
  induction bs with
  | nil => intro k _ _; rfl
  | cons b bs ih =>
    intro k hroom hforms
    obtain ⟨name, form⟩ := b
    rw [List.length_cons] at hroom
    obtain ⟨hform, hforms⟩ := List.forall_mem_cons.mp hforms
    have hsame : form.renumber (Supply.shift s t) = form :=
      Expr.renumber_eq_self (hform.mono fun i hi => Supply.shift_of_lt hi)
    have hbinding := Supply.shift_drawn (s := s) (t := t) (k := k) (by omega)
    have hkey := Supply.shift_drawn (s := s) (t := t) (k := k + 1) (by omega)
    have hrest := ih (k := k + 2) (by omega) hforms
    rw [drawn, drawn, List.map_cons, Nat.add_assoc, Nat.add_assoc, hrest]
    simp only [Pairing.renumber, Ident.renumber, hsame, hbinding, Nat.add_assoc, hkey]

end BindingSet

end Hygiene
