import Hygiene.Evaluation.Scope

/-!
# Lookups under further bindings

A binding pushed on two scopes keeps what they agreed on (`lookup?_push_congr`). Bindings pushed one
after another answer for their own binders, as long as no two of these are alike
(`lookup?_pushAll_of_mem`), and leave every other lookup as it was (`lookup?_pushAll_of_ne`).
-/

namespace Hygiene.Scope

/-- What two scopes agree on they agree on under one more binding. -/
theorem lookup?_push_congr {t s : Scope} {b : Binder} (h : t.lookup? b = s.lookup? b) (c : Binder)
    (v : Value) : (t.push c v).lookup? b = (s.push c v).lookup? b := by
  rw [lookup?_push, lookup?_push, h]

/-- Bind one binder after the other, as long as there are values for them. -/
def pushAll (s : Scope) : List Binder → List Value → Scope
  | b :: bs, v :: vs => (s.push b v).pushAll bs vs
  | _, _ => s

theorem lookup?_pushAll_congr {b : Binder} :
    ∀ (bs : List Binder) (vs : List Value) {t s : Scope}, t.lookup? b = s.lookup? b →
      (t.pushAll bs vs).lookup? b = (s.pushAll bs vs).lookup? b
  | [], _, _, _, h => h
  | _ :: _, [], _, _, h => h
  | c :: bs, v :: vs, _, _, h => lookup?_pushAll_congr bs vs (lookup?_push_congr h c v)

theorem lookup?_pushAll_of_ne {b : Binder} :
    ∀ (bs : List Binder) (vs : List Value) {s : Scope}, (∀ c ∈ bs, (b == c) = false) →
      (s.pushAll bs vs).lookup? b = s.lookup? b
  | [], _, _, _ => rfl
  | _ :: _, [], _, _ => rfl
  | c :: bs, v :: vs, s, h => by
    rw [pushAll, lookup?_pushAll_of_ne bs vs fun d hd => h d (List.mem_cons_of_mem c hd),
      lookup?_push, h c List.mem_cons_self]
    rfl

theorem lookup?_pushAll_of_mem {π : Type} {f : π → Binder} :
    ∀ {ps : List π} {vs : List Value} {s : Scope} {p : π} {v : Value},
      ps.Pairwise (fun p q => (f p == f q) = false) → (p, v) ∈ ps.zip vs →
      (s.pushAll (ps.map f) vs).lookup? (f p) = some v := by
  intro ps
  induction ps with
  | nil => intro vs s p v _ hmem; cases hmem
  | cons q ps ih =>
    intro vs s p v hdist hmem
    obtain ⟨hq, hrest⟩ := List.pairwise_cons.mp hdist
    cases vs with
    | nil => cases hmem
    | cons w vs =>
      rw [List.map_cons, pushAll]
      rw [List.zip_cons_cons] at hmem
      rcases List.mem_cons.mp hmem with heq | hmem
      · -- the binding just pushed: none of the later ones hides it
        obtain ⟨rfl, rfl⟩ := Prod.mk.inj heq
        have hlater : ∀ c ∈ ps.map f, (f p == c) = false := by
          intro c hc
          obtain ⟨r, hr, rfl⟩ := List.mem_map.mp hc
          exact hq r hr
        have hself : (f p == f p) = true := by
          cases f p <;> simp
        rw [lookup?_pushAll_of_ne _ _ hlater, lookup?_push, hself]
        rfl
      · exact ih hrest hmem

end Hygiene.Scope
