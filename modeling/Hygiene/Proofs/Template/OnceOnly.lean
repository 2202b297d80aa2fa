import Hygiene.Proofs.Template.Capture
import Hygiene.Proofs.Template.Minting

/-!
# What once-only bindings mean

A wrapped template is code: a `letIn` of identifiers around a rewritten body. Its meaning is told
without either, by two readings that evaluate the template as it was written:

* `observeBound` runs the listed expressions once each, each seeing the identifiers of those before
  it, and then the body with every value under its identifier *and* under its name;
* `observeOnce` knows no identifiers at all. Each expression runs in the scope given and the body
  runs with the names bound.

The first is what a set means to code that may mention its identifiers, above all to a body with
earlier expansions of the same set in it (`observe_wrap`). There rewriting can go wrong: a mention
that stands where a `letIn` of the body has bound its identifier anew, as that of an earlier expansion
does, gets the value bound there (`wrap_reused_captures`). `Expr.captureFree` says when it does not.

The second is what a set means that has just been drawn:

> `observe_onceOnly`: where everything mentioned is older than the draw, binding expressions once
> shows exactly what `observeOnce` shows.

Identifiers just drawn occur nowhere else, so nothing is captured and nobody sees them bound.
-/

namespace Hygiene

namespace Interpreter

variable {σ : Type} (interp : Interpreter σ)

/-- What it shows to run staged expressions in order, each under the identifiers of those before it,
until one fails. -/
def observeStaged : List Staged → Scope → σ → Observation σ (List Value)
  | [], _, host => .done [] host
  | s :: rest, scope, host =>
    (interp.observe s.form scope host).andThen fun v host =>
      (observeStaged rest (scope.push (.ident s.binding) v) host).andThen fun vs host =>
        .done (v :: vs) host

/-- There is a value for every expression that was run. -/
theorem length_of_observeStaged_ok :
    ∀ (staged : List Staged) {scope : Scope} {host : σ} {vs : List Value},
      (interp.observeStaged staged scope host).result = .ok vs → vs.length = staged.length
  | [], scope, host, vs, h => by
    obtain rfl : [] = vs := Except.ok.inj h
    rfl
  | s :: rest, scope, host, vs, h => by
    rw [observeStaged] at h
    obtain ⟨v, -, h⟩ := Observation.result_andThen_eq_ok h
    obtain ⟨ws, hws, h⟩ := Observation.result_andThen_eq_ok h
    obtain rfl : v :: ws = vs := Except.ok.inj h
    rw [List.length_cons, List.length_cons, length_of_observeStaged_ok rest hws]

/-- A `letIn` of identifiers runs its values in order and its body under all of them. -/
theorem observe_letIn_staged (staged : List Staged) (body : Expr) :
    ∀ (scope : Scope) (host : σ),
      interp.observe (.letIn (staged.map fun s => (.ident s.binding, s.form)) body) scope host
        = (interp.observeStaged staged scope host).andThen fun vs host =>
          interp.observe body (scope.pushAll (staged.map fun s => .ident s.binding) vs) host := by
  induction staged with
  | nil => intro scope host; rw [List.map_nil, observe_letIn_nil]; rfl
  | cons s rest ih =>
    intro scope host
    rw [List.map_cons, observe_letIn_cons, observeStaged, Observation.andThen_assoc]
    refine Observation.andThen_congr _ fun v host => ?_
    rw [ih, Observation.andThen_assoc]
    rfl

/-- Expressions that read none of the identifiers bound on the way may all be run in the first
scope. `old` are the identifiers they do read. -/
theorem observeStaged_eq_observeEach {old : Ident → Prop} :
    ∀ (staged : List Staged), (∀ s ∈ staged, ∀ i ∈ s.form.refIdents, old i) →
      (∀ s ∈ staged, ∀ i, old i → i.id ≠ s.binding.id) →
      ∀ {t scope : Scope}, (∀ n, t.lookupName? n = scope.lookupName? n) →
        (∀ i, old i → t.lookupIdent? i = scope.lookupIdent? i) → ∀ host : σ,
        interp.observeStaged staged t host
          = interp.observeEach (staged.map Staged.form) scope host
  | [], hforms, hnew, t, scope, hnames, hidents, host => rfl
  | s :: rest, hforms, hnew, t, scope, hnames, hidents, host => by
    have hread : Scope.AgreeFor [] s.form t scope :=
      ⟨fun n _ => hnames n, fun i hi => hidents i (hforms s List.mem_cons_self i hi)⟩
    rw [observeStaged, List.map_cons, observeEach, interp.observe_congr s.form hread]
    refine Observation.andThen_congr _ fun v host => ?_
    rw [observeStaged_eq_observeEach rest (fun r hr => hforms r (List.mem_cons_of_mem s hr))
      (fun r hr => hnew r (List.mem_cons_of_mem s hr)) (fun n => ?_) (fun i hi => ?_)]
    · rw [Scope.lookupName?_push_ident]
      exact hnames n
    · rw [Scope.lookupIdent?_push_ident, if_neg (hnew s List.mem_cons_self i hi)]
      exact hidents i hi

/-! ## What wrapping leaves in scope -/

end Interpreter

namespace BindingSet

variable {ps : List Pairing} {vs : List Value}

/-- Every pairing has a value when there are as many values as pairings. -/
theorem exists_mem_zip (hlength : vs.length = ps.length) {p : Pairing} (hp : p ∈ ps) :
    ∃ v, (p, v) ∈ ps.zip vs := by
  have hps : (ps.zip vs).map Prod.fst = ps := List.map_fst_zip (by omega)
  rw [← hps] at hp
  obtain ⟨⟨q, v⟩, hmem, rfl⟩ := List.mem_map.mp hp
  exact ⟨v, hmem⟩

/-- What a name is rewritten to is bound for this name. -/
theorem mem_of_get?_rewrites (hdist : Distinct ps) {n : String} {i : Ident}
    (hget : (paired ps).rewrites.get? n = some i) :
    ∃ p ∈ ps, p.name = n ∧ p.staged.binding = i := by
  rw [rewrites_paired hdist] at hget
  obtain ⟨entry, hentry, hkey, hvalue⟩ := OrderedMap.mem_of_get?_eq_some hget
  obtain ⟨p, hp, rfl⟩ := List.mem_map.mp hentry
  exact ⟨p, hp, (eq_of_beq hkey).symm, hvalue⟩

/-- With the identifiers bound, the mentions that wrapping has rewritten and the names they were
before stand for the same values, once these names are bound as well. -/
theorem agree_pushAll (hdist : Distinct ps) (hlength : vs.length = ps.length) (scope : Scope) :
    let bound := scope.pushAll (ps.map fun p => .ident p.staged.binding) vs
    (paired ps).rewrites.Agree [] [] bound (bound.pushAll (ps.map fun p => .name p.name) vs) := by
  intro bound
  have hnames : ps.Pairwise fun p q => (Binder.name p.name == Binder.name q.name) = false :=
    hdist.names.imp fun h => by rwa [Binder.name_beq_name, BEq.comm]
  have hidents : ps.Pairwise fun p q =>
      (Binder.ident p.staged.binding == Binder.ident q.staged.binding) = false :=
    hdist.bindings.imp fun h => Ident.beq_eq_false_iff.mpr (Ident.beq_eq_false_iff.mp h).symm
  refine ⟨fun n i hget _ _ => ?_, fun n hn => ?_, fun i => ?_⟩
  · -- the two are bound to the value at the same place of `vs`
    obtain ⟨p, hp, rfl, rfl⟩ := mem_of_get?_rewrites hdist hget
    obtain ⟨v, hv⟩ := exists_mem_zip hlength hp
    exact ⟨v, Scope.lookup?_pushAll_of_mem hidents hv, Scope.lookup?_pushAll_of_mem hnames hv⟩
  · have hnone : (paired ps).rewrites.get? n = none := hn.resolve_right List.not_mem_nil
    rw [rewrites_paired hdist, OrderedMap.get?_eq_none_iff] at hnone
    refine (Scope.lookup?_pushAll_of_ne _ vs fun c hc => ?_).symm
    obtain ⟨p, hp, rfl⟩ := List.mem_map.mp hc
    exact hnone (p.name, p.staged.binding) (List.mem_map_of_mem hp)
  · refine (Scope.lookup?_pushAll_of_ne _ vs fun c hc => ?_).symm
    obtain ⟨p, hp, rfl⟩ := List.mem_map.mp hc
    rfl

end BindingSet

namespace Interpreter

variable {σ : Type} (interp : Interpreter σ)

/-- The meaning of a wrapped body, without rewriting: the listed expressions run once each, in
order, and the body runs with each value under the identifier and under the name it belongs to. -/
def observeBound (set : BindingSet) (body : Expr) (scope : Scope) (host : σ) :
    Observation σ Value :=
  (interp.observeStaged set.staged.values scope host).andThen fun vs host =>
    interp.observe body
      ((scope.pushAll (set.staged.values.map fun s => .ident s.binding) vs).pushAll
        (set.names.keys.map .name) vs) host

theorem observe_wrap_paired {ps : List BindingSet.Pairing} (hdist : BindingSet.Distinct ps)
    {body : Expr} (hfree : body.captureFree (BindingSet.paired ps).rewrites [] [] = true)
    (scope : Scope) (host : σ) :
    interp.observe ((BindingSet.paired ps).wrap body) scope host
      = interp.observeBound (BindingSet.paired ps) body scope host := by
  rw [BindingSet.wrap, BindingSet.emit, observe_letIn_staged, observeBound,
    BindingSet.keys_names_paired, BindingSet.values_staged_paired, List.map_map, List.map_map]
  -- after a failure neither side runs the body, so there is a value for every name
  refine Observation.andThen_congr_of_ok _ fun vs hok host => ?_
  have hlength : vs.length = ps.length := by
    rw [interp.length_of_observeStaged_ok _ hok, List.length_map]
  rw [Expr.substitute_eq_rewrite]
  exact interp.observe_rewrite body (BindingSet.agree_pushAll hdist hlength scope) hfree host

/-- **Wrapping keeps the meaning of a body without capture**, whatever else stands in the body:
earlier expansions of the same set and mentions of its identifiers included. -/
theorem observe_wrap {bindings : List (String × Expr)} {supply supply' : Supply}
    {set : BindingSet} (hset : BindingSet.ofList bindings supply = (.ok set, supply'))
    (hroom : bindings.length ≤ 2 ^ 63) (body : Expr)
    (hfree : body.captureFree set.rewrites [] [] = true) (scope : Scope) (host : σ) :
    interp.observe (set.wrap body) scope host = interp.observeBound set body scope host := by
  have hnodup := BindingSet.nodup_of_ofList_ok hset
  have hids : 2 * bindings.length ≤ 2 ^ 64 := by omega
  rw [BindingSet.ofList_paired hnodup hids] at hset
  obtain ⟨rfl, -⟩ : _ = set ∧ _ := by simpa using hset
  exact interp.observe_wrap_paired (BindingSet.distinct_drawn hnodup hids) hfree scope host

/-- A set used twice: the name in the inner expansion's own expression is not under its `letIn`. -/
theorem observe_wrap_reused :
    let form : Expr := .call "tick" [.name "x"]
    let set : BindingSet := ⟨⟨[("x", ⟨1, "x"⟩)]⟩, ⟨[(⟨1, "x"⟩, ⟨⟨0, "x"⟩, form⟩)]⟩⟩
    let body : Expr := set.wrap (.call "tick" [.name "x", .ref ⟨0, "x"⟩])
    let tick : HostFunction Nat := fun args n => (.ok (.list args), n + 1)
    let interp : Interpreter Nat := ⟨⟨[("tick", tick)]⟩⟩
    let scope : Scope := ⟨[(.name "x", .int 7)]⟩
    interp.observe (set.wrap body) scope 0 = interp.observeBound set body scope 0 := by
  intro form set body tick interp scope
  have hset : BindingSet.ofList [("x", form)] {} = (.ok set, ⟨2⟩) := rfl
  exact interp.observe_wrap hset (by decide) body rfl scope 0

/-- **A reused set captures.** Two names that swap their values, wrapped twice: the inner `a` is
rewritten to an identifier that the inner `letIn` has bound anew just before. -/
theorem wrap_reused_captures :
    let bindings : List (String × Expr) := [("a", .name "b"), ("b", .name "a")]
    let scope : Scope := ⟨[(.name "b", .int 2), (.name "a", .int 1)]⟩
    let interp : Interpreter Unit := ⟨{}⟩
    ∃ set supply', BindingSet.ofList bindings {} = (.ok set, supply') ∧
      (interp.observe (set.wrap (set.wrap (.name "b"))) scope ()).result = .ok (.int 1) ∧
      (interp.observeBound set (set.wrap (.name "b")) scope ()).result = .ok (.int 2) :=
  ⟨_, _, rfl, rfl, rfl⟩

end Interpreter

/-! ## Bindings drawn for one template -/

/-- Every identifier in the expression, read or bound, was drawn before the supply got here. -/
def Supply.Precedes (supply : Supply) (e : Expr) : Prop :=
  ∀ i ∈ e.refIdents ++ e.boundIdents, i.id < supply.next

instance (supply : Supply) (e : Expr) : Decidable (supply.Precedes e) :=
  inferInstanceAs (Decidable (∀ i ∈ e.refIdents ++ e.boundIdents, i.id < supply.next))

/-- What is drawn now was not there before, as long as the numbers last. -/
theorem BindingSet.id_ne_of_mem_drawn {supply : Supply} {bindings : List (String × Expr)}
    (hroom : supply.next.toNat + 2 * bindings.length ≤ 2 ^ 64) {p : Pairing}
    (hp : p ∈ drawn supply.next.toNat bindings) {i : Ident} (hi : i.id < supply.next) :
    i.id ≠ p.staged.binding.id := by
  obtain ⟨j, hj, hbinding, -⟩ := ids_of_mem_drawn hp
  rw [hbinding]
  intro heq
  have hnat : i.id.toNat = supply.next.toNat + 2 * j := by
    rw [heq, UInt64.toNat_ofNat', Nat.mod_eq_of_lt (by omega)]
  have hlt : i.id.toNat < supply.next.toNat := UInt64.lt_iff_toNat_lt.mp hi
  omega

namespace Interpreter

variable {σ : Type} (interp : Interpreter σ)

/-- What it means to bind expressions once: they run in order, each in the scope given, and the body
runs with the names bound to their values. -/
def observeOnce (bindings : List (String × Expr)) (body : Expr) (scope : Scope) (host : σ) :
    Observation σ Value :=
  (interp.observeEach (bindings.map Prod.snd) scope host).andThen fun vs host =>
    interp.observe body (scope.pushAll (bindings.map fun b => .name b.1) vs) host

section Drawn

variable {bindings : List (String × Expr)} {body : Expr} {supply : Supply}

/-- Expressions that are older than their identifiers may as well run in the scope given. -/
theorem observeStaged_drawn (hroom : supply.next.toNat + 2 * bindings.length ≤ 2 ^ 64)
    (hforms : ∀ b ∈ bindings, supply.Precedes b.2) (scope : Scope) (host : σ) :
    interp.observeStaged ((BindingSet.drawn supply.next.toNat bindings).map
        BindingSet.Pairing.staged) scope host
      = interp.observeEach (bindings.map Prod.snd) scope host := by
  let ps := BindingSet.drawn supply.next.toNat bindings
  have hforms' : (ps.map BindingSet.Pairing.staged).map Staged.form = bindings.map Prod.snd := by
    rw [List.map_map]
    exact BindingSet.map_form_drawn supply.next.toNat bindings
  have hold : ∀ s ∈ ps.map BindingSet.Pairing.staged, ∀ i ∈ s.form.refIdents,
      i.id < supply.next := by
    intro s hs i hi
    have hform : s.form ∈ bindings.map Prod.snd := hforms' ▸ List.mem_map_of_mem hs
    obtain ⟨b, hb, hform⟩ := List.mem_map.mp hform
    exact hforms b hb i (List.mem_append_left _ (hform ▸ hi))
  have hnew : ∀ s ∈ ps.map BindingSet.Pairing.staged, ∀ i : Ident, i.id < supply.next →
      i.id ≠ s.binding.id := by
    intro s hs i hi
    obtain ⟨p, hp, rfl⟩ := List.mem_map.mp hs
    exact BindingSet.id_ne_of_mem_drawn hroom hp hi
  rw [interp.observeStaged_eq_observeEach _ hold hnew (fun n => rfl) (fun i _ => rfl), hforms']

/-- An expression that is older than the identifiers does not see them bound. -/
theorem observe_pushAll_drawn (hroom : supply.next.toNat + 2 * bindings.length ≤ 2 ^ 64)
    (hbody : supply.Precedes body) (names : List Binder) (vs : List Value) (scope : Scope)
    (host : σ) :
    interp.observe body
        ((scope.pushAll ((BindingSet.drawn supply.next.toNat bindings).map
          fun p => .ident p.staged.binding) vs).pushAll names vs) host
      = interp.observe body (scope.pushAll names vs) host := by
  have hagree : Scope.AgreeFor [] body
      ((scope.pushAll ((BindingSet.drawn supply.next.toNat bindings).map
        fun p => .ident p.staged.binding) vs).pushAll names vs)
      (scope.pushAll names vs) := by
    refine ⟨fun n _ => ?_, fun i hi => ?_⟩
    · refine Scope.lookup?_pushAll_congr names vs (Scope.lookup?_pushAll_of_ne _ vs fun c hc => ?_)
      obtain ⟨p, hp, rfl⟩ := List.mem_map.mp hc
      rfl
    · refine Scope.lookup?_pushAll_congr names vs (Scope.lookup?_pushAll_of_ne _ vs fun c hc => ?_)
      obtain ⟨p, hp, rfl⟩ := List.mem_map.mp hc
      have hlt : i.id < supply.next := hbody i (List.mem_append_left _ hi)
      exact Ident.beq_eq_false_iff.mpr (BindingSet.id_ne_of_mem_drawn hroom hp hlt)
  exact interp.observe_congr body hagree host

/-- The identifiers drawn for a template make no difference to what was there before: each expression
may as well run in the scope given, and the body with the names alone. -/
theorem observeBound_drawn (hroom : supply.next.toNat + 2 * bindings.length ≤ 2 ^ 64)
    (hforms : ∀ b ∈ bindings, supply.Precedes b.2) (hbody : supply.Precedes body)
    (scope : Scope) (host : σ) :
    interp.observeBound (BindingSet.paired (BindingSet.drawn supply.next.toNat bindings)) body scope
        host
      = interp.observeOnce bindings body scope host := by
  rw [observeBound, observeOnce, BindingSet.values_staged_paired, BindingSet.keys_names_paired,
    interp.observeStaged_drawn hroom hforms, BindingSet.map_name_drawn, List.map_map, List.map_map]
  refine Observation.andThen_congr _ fun vs host => ?_
  exact interp.observe_pushAll_drawn hroom hbody (bindings.map fun b => .name b.1) vs scope host

end Drawn

end Interpreter

/-- **Once-only bindings mean what they say**: the listed expressions run once each, in order and in
the scope given, before a body that has their values under its names. How often the body mentions a
name, and under which `letIn`s, has no part in it. -/
theorem observe_onceOnly {bindings : List (String × Expr)} {body : Expr} {supply : Supply}
    (hnames : (bindings.map Prod.fst).Nodup)
    (hroom : supply.next.toNat + 2 * bindings.length ≤ 2 ^ 64)
    (hforms : ∀ b ∈ bindings, supply.Precedes b.2) (hbody : supply.Precedes body) :
    ∃ e supply', onceOnly bindings body supply = (.ok e, supply') ∧
      ∀ {σ : Type} (interp : Interpreter σ) (scope : Scope) (host : σ),
        interp.observe e scope host = interp.observeOnce bindings body scope host := by
  have hids : 2 * bindings.length ≤ 2 ^ 64 := by omega
  let ps := BindingSet.drawn supply.next.toNat bindings
  have hdist : BindingSet.Distinct ps := BindingSet.distinct_drawn hnames hids
  have hset : BindingSet.ofList bindings supply
      = (.ok (BindingSet.paired ps), ⟨.ofNat (supply.next.toNat + 2 * bindings.length)⟩) :=
    BindingSet.ofList_paired hnames hids
  have hfree : body.captureFree (BindingSet.paired ps).rewrites [] [] = true := by
    refine body.captureFree_of_avoids (fun n i _ j hj => ?_) (fun n i hget j hj => ?_)
    · cases hj
    · obtain ⟨p, hp, -, rfl⟩ := BindingSet.mem_of_get?_rewrites hdist hget
      exact BindingSet.id_ne_of_mem_drawn hroom hp (hbody j (List.mem_append_right _ hj))
  refine ⟨(BindingSet.paired ps).wrap body, _, by rw [onceOnly, hset], fun interp scope host => ?_⟩
  rw [interp.observe_wrap_paired hdist hfree]
  exact interp.observeBound_drawn hroom hforms hbody scope host

/-- Names that mean something else outside: `v` in the second expression is not the `v` bound here,
and neither is `tmp` in the first the one that the body binds. -/
theorem observe_onceOnly_shadowing :
    let k : Ident := ⟨0, "k"⟩
    let bindings : List (String × Expr) :=
      [("v", .call "tick" [.name "tmp"]), ("w", .call "tick" [.name "v", .ref k])]
    let body : Expr := .letIn [(.name "tmp", .name "w"), (.ident k, .name "v")]
      (.call "tick" [.name "tmp", .name "v", .name "v", .ref k])
    ∃ e supply', onceOnly bindings body ⟨1⟩ = (.ok e, supply') ∧
      ∀ {σ : Type} (interp : Interpreter σ) (scope : Scope) (host : σ),
        interp.observe e scope host = interp.observeOnce bindings body scope host := by
  intro k bindings body
  exact observe_onceOnly (by decide) (by decide) (by decide) (by decide)

end Hygiene
