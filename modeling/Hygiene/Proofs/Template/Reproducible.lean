import Hygiene.Proofs.Layout.Renumbering
import Hygiene.Proofs.Template.OnceOnly

/-!
# Expansions do not depend on the counter

The numbers in an expansion are an accident of what has been drawn before. Expanding one template
from two states of the supply gives two different expressions, but the one is the other under other
numbers (`BindingSet.renumber_wrap_drawn`), where the identifiers drawn move along with the counter
and everything older stays. Neither reading of an expansion can tell: as text, canonical numbers take
the place of those drawn (`Expr.render_renumber`); as code, it means what the template and the listed
expressions mean, and no number drawn has a part in that (`observe_wrap_drawn`).

> `onceOnly_reproducible`: from any two states of the supply that are past everything mentioned, a
> template expands to code with the same text and the same runs.
-/

namespace Hygiene

section Drawn

variable {bindings : List (String × Expr)} {body : Expr} {s t : Supply}

/-- Distinct names expand to the body wrapped with what is drawn for them. -/
theorem onceOnly_drawn (hnames : (bindings.map Prod.fst).Nodup)
    (hs : s.next.toNat + 2 * bindings.length ≤ 2 ^ 64) :
    onceOnly bindings body s
      = (.ok ((BindingSet.paired (BindingSet.drawn s.next.toNat bindings)).wrap body),
          ⟨.ofNat (s.next.toNat + 2 * bindings.length)⟩) := by
  rw [onceOnly, BindingSet.ofList_paired hnames (by omega)]

/-- An expansion shows what the template means, in which the identifiers drawn have no part. -/
theorem Interpreter.observe_wrap_drawn {σ : Type} (interp : Interpreter σ)
    (hnames : (bindings.map Prod.fst).Nodup)
    (hs : s.next.toNat + 2 * bindings.length ≤ 2 ^ 64)
    (hforms : ∀ b ∈ bindings, s.Precedes b.2) (hbody : s.Precedes body) (scope : Scope) (host : σ) :
    interp.observe ((BindingSet.paired (BindingSet.drawn s.next.toNat bindings)).wrap body) scope host
      = interp.observeOnce bindings body scope host := by
  have hdist : BindingSet.Distinct (BindingSet.drawn s.next.toNat bindings) :=
    BindingSet.distinct_drawn hnames (by omega)
  have havoids : (BindingSet.paired (BindingSet.drawn s.next.toNat bindings)).rewrites.Avoids
      body.boundIdents := by
    intro n i hget j hj
    obtain ⟨p, hp, -, rfl⟩ := BindingSet.mem_of_get?_rewrites hdist hget
    exact BindingSet.id_ne_of_mem_drawn hs hp (hbody j (List.mem_append_right _ hj))
  have hfree : body.captureFree
      (BindingSet.paired (BindingSet.drawn s.next.toNat bindings)).rewrites [] [] = true :=
    body.captureFree_of_avoids (fun _ _ _ _ hj => nomatch hj) havoids
  rw [interp.observe_wrap_paired hdist hfree, interp.observeBound_drawn hs hforms hbody]

namespace BindingSet

/-- Expanded from `t`: what is expanded from `s`, with the numbers moved. -/
theorem renumber_wrap_drawn (hnames : (bindings.map Prod.fst).Nodup)
    (hs : s.next.toNat + 2 * bindings.length ≤ 2 ^ 64)
    (hforms : ∀ b ∈ bindings, s.Precedes b.2) (hbody : s.Precedes body) :
    ((paired (drawn s.next.toNat bindings)).wrap body).renumber (s.shift t)
      = (paired (drawn t.next.toNat bindings)).wrap body := by
  have hmoved : (drawn s.next.toNat bindings).map (Pairing.renumber (s.shift t))
      = drawn t.next.toNat bindings :=
    map_renumber_drawn (k := 0) bindings hs hforms
  have hsame : body.renumber (s.shift t) = body :=
    Expr.renumber_eq_self fun i hi => Supply.shift_of_lt (hbody i hi)
  have hdist := distinct_drawn (c := s.next.toNat) hnames (by omega)
  have hdist' : Distinct ((drawn s.next.toNat bindings).map (Pairing.renumber (s.shift t))) := by
    rw [hmoved]
    exact distinct_drawn hnames (by omega)
  rw [renumber_wrap hdist hdist', hmoved, hsame]

/-- An expansion has identifiers that are older than both states, and those drawn for it. -/
theorem within_wrap_drawn (hs : s.next.toNat + 2 * bindings.length ≤ 2 ^ 64)
    (ht : t.next.toNat + 2 * bindings.length ≤ 2 ^ 64)
    (hforms : ∀ b ∈ bindings, s.Precedes b.2 ∧ t.Precedes b.2)
    (hbody : s.Precedes body ∧ t.Precedes body) :
    ((paired (drawn s.next.toNat bindings)).wrap body).Within fun i => s.Common t i.id := by
  have hold : ∀ {e : Expr}, s.Precedes e ∧ t.Precedes e → e.Within fun i => s.Common t i.id :=
    fun h i hi => Or.inl ⟨h.1 i hi, h.2 i hi⟩
  refine Within.wrap (within_paired fun p hp => ?_) (hold hbody)
  obtain ⟨j, hj, hbinding, hkey⟩ := ids_of_mem_drawn hp
  obtain ⟨b, hb, hform⟩ := exists_form_of_mem_drawn hp
  refine ⟨Or.inr ⟨2 * j + 1, by omega, by omega, hkey⟩, Or.inr ⟨2 * j, by omega, by omega, hbinding⟩,
    hform ▸ hold (hforms b hb)⟩

end BindingSet

/-- **Expansions are reproducible.** Wherever the counter stands, as long as it is past every
identifier in the template and in the listed expressions and there is room for the new ones: the
expansion prints the same under canonical numbering, whatever the width and the indentation, and it
runs the same in every scope, with the same result, host calls and host state. -/
theorem onceOnly_reproducible (hnames : (bindings.map Prod.fst).Nodup)
    (hs : s.next.toNat + 2 * bindings.length ≤ 2 ^ 64)
    (ht : t.next.toNat + 2 * bindings.length ≤ 2 ^ 64)
    (hforms : ∀ b ∈ bindings, s.Precedes b.2 ∧ t.Precedes b.2)
    (hbody : s.Precedes body ∧ t.Precedes body) :
    ∃ e e' s' t', onceOnly bindings body s = (.ok e, s') ∧ onceOnly bindings body t = (.ok e', t') ∧
      (∀ layout : Layout, layout.numbering = .canonical → e.render layout = e'.render layout) ∧
      ∀ {σ : Type} (interp : Interpreter σ) (scope : Scope) (host : σ),
        interp.observe e scope host = interp.observe e' scope host := by
  refine ⟨_, _, _, _, onceOnly_drawn hnames hs, onceOnly_drawn hnames ht, ?_, ?_⟩
  · intro layout hcanonical
    have htext := Expr.render_renumber (fun _ _ => Supply.shift_injective)
      (BindingSet.within_wrap_drawn hs ht hforms hbody) hcanonical
    rw [BindingSet.renumber_wrap_drawn hnames hs (fun b hb => (hforms b hb).1) hbody.1] at htext
    exact htext.symm
  · intro σ interp scope host
    rw [interp.observe_wrap_drawn hnames hs (fun b hb => (hforms b hb).1) hbody.1,
      interp.observe_wrap_drawn hnames ht (fun b hb => (hforms b hb).2) hbody.2]

end Drawn

/-- From 1 and from 100, with an older identifier in the expression listed and in the body, and the
name bound anew inside. -/
theorem onceOnly_reproducible_mixed :
    let k : Ident := ⟨0, "k"⟩
    let bindings : List (String × Expr) := [("v", .call "tick" [.ref k])]
    let body : Expr := .letIn [(.ident k, .name "v"), (.name "v", .ref k)]
      (.call "list" [.name "v", .ref k])
    ∃ e e' s' t', onceOnly bindings body ⟨1⟩ = (.ok e, s') ∧ onceOnly bindings body ⟨100⟩ = (.ok e', t') ∧
      (∀ layout : Layout, layout.numbering = .canonical → e.render layout = e'.render layout) ∧
      ∀ {σ : Type} (interp : Interpreter σ) (scope : Scope) (host : σ),
        interp.observe e scope host = interp.observe e' scope host := by
  intro k bindings body
  exact onceOnly_reproducible (by decide) (by decide) (by decide) (by decide) (by decide)

end Hygiene
