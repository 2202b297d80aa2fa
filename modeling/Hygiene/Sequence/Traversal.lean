import Hygiene.Sequence.Bounds
import Hygiene.Sequence.Target

/-!
# Bounded traversal

`Target.traverse` shows the elements within given bounds to a visitor, one after another, whichever
shape the container has. The visitor is a step on a state, so the state at the end tells what was
visited and in which order.

An indexed container is asked for its length first and then for one index after another. A linked
one is walked: as many cells as the start says are passed over, then elements are shown until the
count of those wanted has run down or the chain ends. Bounds that end before they start visit
nothing, before the length is even looked at; a start behind the end is a fault, and then nothing
has been visited either.
-/

namespace Hygiene

variable {α σ : Type}

/-- Show the elements between two indices to the visitor. -/
def Indexed.visit (seq : Indexed α) (start stop : Nat) (step : σ → α → σ) (s : σ) : σ :=
  ((List.range' start (stop - start)).filterMap seq.get?).foldl step s

/-- Traverse an indexed container; an end behind the container is moved to its end. -/
def Indexed.traverse (seq : Indexed α) (b : Bounds) (step : σ → α → σ) (s : σ) :
    Except Fault Unit × σ :=
  if b.start > seq.length then (.error (.range b.start b.stop seq.length), s)
  else
    let stop := match b.stop with
      | none => seq.length
      | some stop => min stop seq.length
    (.ok (), seq.visit b.start stop step s)

namespace Linked

/-- Pass over `n` elements. No cell is left once the chain has run out, and running out early gives
the number of elements that were there; `passed` counts those before this cell. -/
def skip : (n passed : Nat) → Option (Linked α) → Except Nat (Option (Linked α))
  | 0, _, cursor => .ok cursor
  | n + 1, passed, some (cell _ rest) => skip n (passed + 1) (some rest)
  | n + 1, passed, some (last _) => skip n (passed + 1) none
  | _ + 1, passed, some vacant => .error passed
  | _ + 1, passed, none => .error passed

/-- Show the elements from this cell on to the visitor: all of them, or as many as are wanted. -/
def visit (step : σ → α → σ) : Linked α → (wanted : Option Nat) → σ → σ
  | _, some 0, s => s
  | vacant, _, s => s
  | last a, _, s => step s a
  | cell a rest, none, s => visit step rest none (step s a)
  | cell a rest, some (n + 1), s => visit step rest (some n) (step s a)

def traverse (seq : Linked α) (b : Bounds) (step : σ → α → σ) (s : σ) : Except Fault Unit × σ :=
  match skip b.start 0 (some seq) with
  | .error length => (.error (.range b.start b.stop length), s)
  | .ok none => (.ok (), s)
  | .ok (some rest) => (.ok (), rest.visit step (b.stop.map (· - b.start)) s)

end Linked

/-- Show the elements of a container within the bounds to the visitor, in order. -/
def Target.traverse (target : Target α) (b : Bounds) (step : σ → α → σ) (s : σ) :
    Except Fault Unit × σ :=
  if b.isEmptyRange then (.ok (), s)
  else
    match target with
    | .indexed seq => seq.traverse b step s
    | .linked seq => seq.traverse b step s

/-- Traverse a value. Its shape is settled first, so a value that is no sequence is a fault whatever
the bounds. -/
def Value.traverse (v : Value) (b : Bounds) (step : σ → Value → σ) (s : σ) :
    Except Fault Unit × σ :=
  match v.target with
  | .error fault => (.error fault, s)
  | .ok target => target.traverse b step s

end Hygiene
