import Hygiene.OrderedMap
import Hygiene.Template.Expr

/-!
# Rewriting names to references

`Expr.substitute` points every free mention of a name at the identifier that a map gives for it. A
`letIn` that binds the name shadows it for the bindings after it and for its body, so the mentions
there stay as they are. Binders and the names of functions are never rewritten.

It does so in one walk over the expression (`Expr.walkRewrite`), which keeps a stack of the names
shadowed on the way and takes it back to where it was at the end of each `letIn`. `Expr.rewrite` says
what the walk comes to: every part is rewritten under the names that the `letIn`s around it bind.
-/

namespace Hygiene

/-- Which identifier a name is rewritten to. -/
abbrev Rewrites := OrderedMap String Ident

namespace Expr

/-- What becomes of a mention of a name. -/
def rewriteName (rewrites : Rewrites) (shadowed : List String) (n : String) : Expr :=
  match rewrites.get? n with
  | some i => if shadowed.contains n then name n else ref i
  | none => name n

mutual

/-- Walk over an expression, left to right: what it becomes, and the stack behind it. -/
def walkRewrite (rewrites : Rewrites) : Expr → List String → Expr × List String
  | lit v, shadowed => (lit v, shadowed)
  | ref i, shadowed => (ref i, shadowed)
  | name n, shadowed => (rewriteName rewrites shadowed n, shadowed)
  | call f args, shadowed =>
    let (args, shadowed) := walkRewriteAll rewrites args shadowed
    (call f args, shadowed)
  | letIn bindings body, shadowed =>
    let depth := shadowed.length
    let (bindings, shadowed) := walkRewriteBindings rewrites bindings shadowed
    let (body, shadowed) := walkRewrite rewrites body shadowed
    (letIn bindings body, shadowed.drop (shadowed.length - depth))
  | seq items, shadowed =>
    let (items, shadowed) := walkRewriteAll rewrites items shadowed
    (seq items, shadowed)
  | cond c t e, shadowed =>
    let (c, shadowed) := walkRewrite rewrites c shadowed
    let (t, shadowed) := walkRewrite rewrites t shadowed
    let (e, shadowed) := walkRewrite rewrites e shadowed
    (cond c t e, shadowed)

def walkRewriteAll (rewrites : Rewrites) : List Expr → List String → List Expr × List String
  | [], shadowed => ([], shadowed)
  | e :: es, shadowed =>
    let (e, shadowed) := walkRewrite rewrites e shadowed
    let (es, shadowed) := walkRewriteAll rewrites es shadowed
    (e :: es, shadowed)

/-- Walk over the values of bindings and push the name of each binder behind its value. -/
def walkRewriteBindings (rewrites : Rewrites) :
    List (Binder × Expr) → List String → List (Binder × Expr) × List String
  | [], shadowed => ([], shadowed)
  | (b, e) :: rest, shadowed =>
    let (e, shadowed) := walkRewrite rewrites e shadowed
    let (rest, shadowed) := walkRewriteBindings rewrites rest (b.bindName shadowed)
    ((b, e) :: rest, shadowed)

end

/-- Point every free mention of a name in `rewrites` at its identifier. With nothing to rewrite the
expression is handed back as it is. -/
def substitute (e : Expr) (rewrites : Rewrites) : Expr :=
  if rewrites.isEmpty then e else (e.walkRewrite rewrites []).1

mutual

/-- Every mention rewritten that neither `shadowed` nor a `letIn` around it binds. -/
def rewrite (rewrites : Rewrites) (shadowed : List String) : Expr → Expr
  | lit v => lit v
  | ref i => ref i
  | name n => rewriteName rewrites shadowed n
  | call f args => call f (rewriteAll rewrites shadowed args)
  | letIn bindings body =>
    letIn (rewriteBindings rewrites shadowed bindings)
      (rewrite rewrites (Binder.bindNames shadowed (bindings.map Prod.fst)) body)
  | seq items => seq (rewriteAll rewrites shadowed items)
  | cond c t e =>
    cond (rewrite rewrites shadowed c) (rewrite rewrites shadowed t) (rewrite rewrites shadowed e)

def rewriteAll (rewrites : Rewrites) (shadowed : List String) : List Expr → List Expr
  | [] => []
  | e :: es => rewrite rewrites shadowed e :: rewriteAll rewrites shadowed es

/-- The values of bindings rewritten, each under the shadows of the binders before it. -/
def rewriteBindings (rewrites : Rewrites) (shadowed : List String) :
    List (Binder × Expr) → List (Binder × Expr)
  | [] => []
  | (b, e) :: rest =>
    (b, rewrite rewrites shadowed e) :: rewriteBindings rewrites (b.bindName shadowed) rest

end

end Expr

end Hygiene
