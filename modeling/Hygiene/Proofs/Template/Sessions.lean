import Hygiene.Proofs.Template.Provenance
import Mathlib.Algebra.Group.Nat.Defs
import Mathlib.Data.List.Nodup

/-!
# Identifiers over a whole session

A session is any sequence of the operations that draw identifiers or put them into code: drawing one
or several, making a set, expanding it in either way, rewriting a template. What an operation works on
is anything the session has come by: expressions put together from identifiers drawn before, by hand
or by an earlier operation, and sets made before (`Session.Permits`). A set may be expanded any number
of times, and a list with a name that repeats draws identifiers like any other before it is refused.

`Session.Sound` says that the session's log is what the supply gave and that nothing else stands in
the expressions and sets made so far. Every operation keeps it (`Sound.step`), so it holds of every
session that starts with nothing (`sound_run`). As long as the numbers last,

> `Session.fresh_throughout`: identifiers are numbered 0, 1, 2, … as they are drawn, and the next one
> stands nowhere in what there is.
-/

namespace Hygiene

/-- What has been drawn and made so far. -/
structure Session where
  supply : Supply := {}
  /-- Every identifier drawn, in order, also those that no one has any more. -/
  minted : List Ident := []
  exprs : List Expr := []
  sets : List BindingSet := []

/-- An operation, with what it is given. -/
inductive Operation where
  | fresh (hint : String)
  | freshMany (hint : String) (count : Nat)
  | newSet (bindings : List (String × Expr))
  | onceOnly (bindings : List (String × Expr)) (body : Expr)
  | substitute (e : Expr) (rewrites : Rewrites)
  | wrap (set : BindingSet) (body : Expr)
  | wrapWith (set : BindingSet) (build : BindingSet.Refs → Expr)

namespace Session

/-- The session after an operation that drew identifiers and made expressions and sets. -/
def add (s : Session) (drawn : List Ident × Supply) (exprs : List Expr) (sets : List BindingSet) :
    Session :=
  ⟨drawn.2, s.minted ++ drawn.1, s.exprs ++ exprs, s.sets ++ sets⟩

/-- The session after an operation. One that is refused makes nothing, but it may have drawn. -/
def step (s : Session) : Operation → Session
  | .fresh hint =>
    let (i, supply) := s.supply.fresh hint
    s.add ([i], supply) [] []
  | .freshMany hint count => s.add (s.supply.freshMany hint count) [] []
  | .newSet bindings =>
    let (made, supply) := BindingSet.ofList bindings s.supply
    s.add (BindingSet.issued {} bindings s.supply, supply) [] made.toOption.toList
  | .onceOnly bindings body =>
    let (made, supply) := onceOnly bindings body s.supply
    s.add (BindingSet.issued {} bindings s.supply, supply) made.toOption.toList []
  | .substitute e rewrites => s.add ([], s.supply) [e.substitute rewrites] []
  | .wrap set body => s.add ([], s.supply) [set.wrap body] []
  | .wrapWith set build => s.add ([], s.supply) [set.wrapWith build] []

def run (s : Session) (ops : List Operation) : Session := ops.foldl step s

/-- An identifier that has been drawn. -/
def Issued (s : Session) (i : Ident) : Prop := i.id ∈ s.minted.map Ident.id

instance (s : Session) : DecidablePred s.Issued :=
  fun i => inferInstanceAs (Decidable (i.id ∈ s.minted.map Ident.id))

/-- What an operation is given must be there: sets made before, and expressions out of identifiers
drawn before. A builder has the references of its set besides. -/
def Permits (s : Session) : Operation → Prop
  | .fresh _ | .freshMany _ _ => True
  | .newSet bindings => ∀ b ∈ bindings, b.2.Within s.Issued
  | .onceOnly bindings body => (∀ b ∈ bindings, b.2.Within s.Issued) ∧ body.Within s.Issued
  | .substitute e rewrites => e.Within s.Issued ∧ ∀ i ∈ rewrites.values, s.Issued i
  | .wrap set body => set ∈ s.sets ∧ body.Within s.Issued
  | .wrapWith set build =>
    set ∈ s.sets ∧ (build set.refs).Within fun i => s.Issued i ∨ ∃ n, set.refs.ident? n = some i

/-- Every operation of a sequence is permitted where its turn comes. -/
def PermitsAll (s : Session) : List Operation → Prop
  | [] => True
  | op :: ops => s.Permits op ∧ (s.step op).PermitsAll ops

/-- Every identifier in the expressions and sets made so far has the property. -/
structure Within (S : Ident → Prop) (s : Session) : Prop where
  exprs : ∀ e ∈ s.exprs, e.Within S
  sets : ∀ set ∈ s.sets, set.Within S

theorem Within.mono {S T : Ident → Prop} {s : Session} (h : s.Within S) (hST : ∀ i, S i → T i) :
    s.Within T :=
  ⟨fun e he => (h.exprs e he).mono hST, fun set hset => (h.sets set hset).mono hST⟩

/-- The log is what the supply gave, and it accounts for every identifier there is. -/
structure Sound (s : Session) : Prop where
  issues : Supply.Issues {} s.minted s.supply
  within : s.Within s.Issued

theorem sound_empty : Sound {} :=
  ⟨.nothing {}, ⟨fun _ he => (nomatch he), fun _ hset => (nomatch hset)⟩⟩

section Step

variable {s : Session} {drawn : List Ident × Supply} {exprs : List Expr} {sets : List BindingSet}

/-- What was drawn before stays drawn. -/
theorem Issued.add {i : Ident} (h : s.Issued i) : (s.add drawn exprs sets).Issued i := by
  show i.id ∈ (s.minted ++ drawn.1).map Ident.id
  rw [List.map_append]
  exact List.mem_append_left _ h

theorem issued_add_of_mem {i : Ident} (h : i ∈ drawn.1) : (s.add drawn exprs sets).Issued i := by
  show i.id ∈ (s.minted ++ drawn.1).map Ident.id
  rw [List.map_append]
  exact List.mem_append_right _ (List.mem_map_of_mem h)

/-- What is made out of identifiers drawn by then leaves the session sound. -/
theorem Sound.add (h : s.Sound) (hdrawn : s.supply.Issues drawn.1 drawn.2)
    (hexprs : ∀ e ∈ exprs, e.Within (s.add drawn exprs sets).Issued)
    (hsets : ∀ set ∈ sets, set.Within (s.add drawn exprs sets).Issued) :
    (s.add drawn exprs sets).Sound := by
  have hold : s.Within (s.add drawn exprs sets).Issued := h.within.mono fun _ => Issued.add
  refine ⟨h.issues.trans hdrawn, ⟨fun e he => ?_, fun set hset => ?_⟩⟩
  · rcases List.mem_append.mp he with he | he
    · exact hold.exprs e he
    · exact hexprs e he
  · rcases List.mem_append.mp hset with hset | hset
    · exact hold.sets set hset
    · exact hsets set hset

theorem eq_ok_of_mem_toList {ε α : Type} {r : Except ε α} {a : α} (h : a ∈ r.toOption.toList) :
    r = .ok a := by
  cases r with
  | error failure => cases h
  | ok b => rw [List.mem_singleton.mp h]

/-- **No operation brings in an identifier that was not drawn**, and each logs what it draws. -/
theorem Sound.step (h : s.Sound) {op : Operation} (hop : s.Permits op) : (s.step op).Sound := by
  cases op with
  | fresh hint =>
    exact h.add (.more (.nothing _)) (fun _ he => nomatch he) fun _ hset => nomatch hset
  | freshMany hint count =>
    exact h.add (s.supply.issues_freshMany hint count) (fun _ he => nomatch he)
      fun _ hset => nomatch hset
  | newSet bindings =>
    refine h.add (BindingSet.issues_ofList bindings s.supply) (fun _ he => nomatch he) ?_
    intro set hset
    -- a list that is refused leaves no set, but its identifiers are in the log
    have hok : (BindingSet.ofList bindings s.supply).1 = .ok set := eq_ok_of_mem_toList hset
    exact .ofList (fun b hb => (hop b hb).mono fun _ => Issued.add)
      (fun _ hi => issued_add_of_mem hi) hok
  | onceOnly bindings body =>
    obtain ⟨hforms, hbody⟩ := hop
    have hissues := BindingSet.issues_ofList bindings s.supply
    rw [← onceOnly_supply bindings body] at hissues
    refine h.add hissues (fun e he => ?_) fun _ hset => nomatch hset
    have hok : (Hygiene.onceOnly bindings body s.supply).1 = .ok e := eq_ok_of_mem_toList he
    exact .onceOnly (fun b hb => (hforms b hb).mono fun _ => Issued.add)
      (hbody.mono fun _ => Issued.add) (fun _ hi => issued_add_of_mem hi) hok
  | substitute e rewrites =>
    obtain ⟨he, hrange⟩ := hop
    refine h.add (.nothing _) (fun e' he' => ?_) fun _ hset => nomatch hset
    obtain rfl : e' = e.substitute rewrites := List.mem_singleton.mp he'
    exact (he.substitute hrange).mono fun _ => Issued.add
  | wrap set body =>
    obtain ⟨hset, hbody⟩ := hop
    refine h.add (.nothing _) (fun e he => ?_) fun _ hset => nomatch hset
    obtain rfl : e = set.wrap body := List.mem_singleton.mp he
    exact ((h.within.sets set hset).wrap hbody).mono fun _ => Issued.add
  | wrapWith set build =>
    obtain ⟨hset, hbuild⟩ := hop
    have hwithin := h.within.sets set hset
    -- the references that a builder is handed are bound identifiers of a set that is there already
    have hbody : (build set.refs).Within s.Issued := by
      refine hbuild.mono fun i hi => ?_
      rcases hi with hi | ⟨n, hn⟩
      · exact hi
      · exact hwithin.binding? hn
    refine h.add (.nothing _) (fun e he => ?_) fun _ hset => nomatch hset
    obtain rfl : e = set.wrapWith build := List.mem_singleton.mp he
    exact (hwithin.emit hbody).mono fun _ => Issued.add

end Step

/-- Soundness goes through a whole sequence of operations. -/
theorem sound_run {ops : List Operation} :
    ∀ {s : Session}, s.Sound → s.PermitsAll ops → (s.run ops).Sound := by
  induction ops with
  | nil => intro s h _; exact h
  | cons op ops ih =>
    intro s h hops
    exact ih (h.step hops.1) hops.2

/-! ## Numbers in a sound session -/

namespace Sound

variable {s : Session}

/-- The identifiers are numbered in the order in which they were drawn. -/
theorem numbered (h : s.Sound) (hroom : s.minted.length < 2 ^ 64) :
    s.minted.map (fun i => i.id.toNat) = List.range s.minted.length
      ∧ s.supply.next.toNat = s.minted.length := by
  obtain ⟨hids, hnext⟩ := h.issues.ids
  have hstart : ∀ k, ({} : Supply).next + .ofNat k = .ofNat k := fun k => UInt64.zero_add _
  constructor
  · have hmap : s.minted.map (fun i => i.id.toNat) = (s.minted.map Ident.id).map UInt64.toNat := by
      rw [List.map_map]
      rfl
    rw [hmap, hids, List.map_map]
    refine (List.map_congr_left fun k hk => ?_).trans (List.map_id _)
    have hlt : k < s.minted.length := List.mem_range.mp hk
    rw [Function.comp_apply, hstart, UInt64.toNat_ofNat', Nat.mod_eq_of_lt (by omega), id_eq]
  · rw [hnext, hstart, UInt64.toNat_ofNat', Nat.mod_eq_of_lt hroom]

/-- What was drawn has a number below the counter. -/
theorem lt_next (h : s.Sound) (hroom : s.minted.length < 2 ^ 64) {i : Ident} (hi : s.Issued i) :
    i.id < s.supply.next := by
  obtain ⟨hnumbers, hnext⟩ := h.numbered hroom
  obtain ⟨j, hj, hid⟩ := List.mem_map.mp hi
  have hmem : j.id.toNat ∈ s.minted.map fun i => i.id.toNat :=
    List.mem_map_of_mem (f := fun i => i.id.toNat) hj
  rw [hnumbers, List.mem_range, hid] at hmem
  rw [UInt64.lt_iff_toNat_lt, hnext]
  exact hmem

end Sound

/-- **Fresh throughout.** Whatever a session has done, as long as fewer than `2 ^ 64` identifiers were
drawn: the log is what the supply gave, identifiers are numbered 0, 1, 2, … as they were drawn, no
number was given twice, everything that stands in an expression or a set is numbered below the counter,
and the identifier drawn next stands in none of them. -/
theorem fresh_throughout {ops : List Operation} (hops : PermitsAll {} ops)
    (hroom : (run {} ops).minted.length < 2 ^ 64) :
    let s := run {} ops
    Supply.Issues {} s.minted s.supply ∧
      s.minted.map (fun i => i.id.toNat) = List.range s.minted.length ∧
      (s.minted.map Ident.id).Nodup ∧
      s.supply.next.toNat = s.minted.length ∧
      s.Within (fun i => i.id < s.supply.next) ∧
      ∀ hint, s.Within fun i => i.id ≠ (s.supply.fresh hint).1.id := by
  intro s
  have hsound : s.Sound := sound_run sound_empty hops
  obtain ⟨hnumbers, hnext⟩ := hsound.numbered hroom
  have hbelow : s.Within fun i => i.id < s.supply.next :=
    hsound.within.mono fun i hi => hsound.lt_next hroom hi
  refine ⟨hsound.issues, hnumbers, ?_, hnext, hbelow, fun hint => hbelow.mono fun i hi => ?_⟩
  · have hnodup : ((s.minted.map Ident.id).map UInt64.toNat).Nodup := by
      rw [List.map_map]
      exact hnumbers ▸ List.nodup_range
    exact List.Nodup.of_map _ hnodup
  · rw [Supply.fresh_id]
    exact UInt64.ne_of_lt hi

/-- A refused list has used up its numbers: the set made next gets 3 and 4. It is expanded three
times, with a builder and around its own expansion. -/
theorem fresh_throughout_refused :
    let k : Ident := ⟨0, "k"⟩
    let set : BindingSet := ⟨⟨[("v", ⟨4, "v"⟩)]⟩, ⟨[(⟨4, "v"⟩, ⟨⟨3, "v"⟩, .ref k⟩)]⟩⟩
    let ops : List Operation := [.fresh "k", .newSet [("a", .name "x"), ("a", .ref k)],
      .newSet [("v", .ref k)], .wrapWith set fun refs => .seq [refs.name "v", .ref k],
      .wrap set (set.wrap (.name "v")), .onceOnly [("w", .lit .nil)] (.name "w")]
    let s := run {} ops
    PermitsAll {} ops ∧ s.minted.map (fun i => i.id.toNat) = List.range 7 ∧
      ∀ hint, s.Within fun i => i.id ≠ (s.supply.fresh hint).1.id := by
  intro k set ops s
  have hrefused : ∀ b ∈ [("a", Expr.name "x"), ("a", .ref k)],
      b.2.Within (run {} (ops.take 1)).Issued := by decide
  have hmade : ∀ b ∈ [("v", Expr.ref k)], b.2.Within (run {} (ops.take 2)).Issued := by decide
  have hbuild : ∀ i ∈ [⟨3, "v"⟩, k],
      (run {} (ops.take 3)).Issued i ∨ ∃ n, set.refs.ident? n = some i := by
    refine List.forall_mem_cons.mpr ⟨Or.inr ⟨"v", rfl⟩, List.forall_mem_cons.mpr ⟨?_, nofun⟩⟩
    exact Or.inl (by decide)
  have hops : PermitsAll {} ops :=
    ⟨trivial, hrefused, hmade, ⟨List.mem_cons_self, hbuild⟩, ⟨List.mem_cons_self, by decide⟩,
      ⟨by decide, by decide⟩, trivial⟩
  have hlength : s.minted.length = 7 := by decide
  obtain ⟨-, hnumbers, -, -, -, hfresh⟩ := fresh_throughout hops (by rw [hlength]; decide)
  exact ⟨hops, hlength ▸ hnumbers, hfresh⟩

end Session

end Hygiene
