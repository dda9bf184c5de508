/-
DrawLang/Proofs/Tree/Free.lean

The free names of an expression: those that occur in it as names to be looked
up, and are not bound by the parameters of a function literal around them.  An
expression contains no definitions, so parameters are all that can bind a name
in it.

A scope is well scoped if every name that is free in one of its expressions is
known there: it was defined before in the scope or in one around it, or it is
the name that a function literal is just being defined by.
-/
import DrawLang.Tree.Basic

namespace DrawLang

/-- The name is free in an expression. -/
inductive Expr.Free (name : Text) : Expr → Prop
  | name (span : Span) : Free name (.atom (.name name) span)
  | body {params : List Param} {body : Expr} {span : Span} (hbound : name ∉ params.map Param.name)
    (h : Free name body) : Free name (.function params body span)
  | callee {callee : Expr} {lists : List (Arguments Expr)} {span : Span} (h : Free name callee) :
    Free name (.calls callee lists span)
  | argument {callee x : Expr} {lists : List (Arguments Expr)} {span : Span}
    {list : Arguments Expr} (hlist : list ∈ lists) (hx : x ∈ list.items) (h : Free name x) :
    Free name (.calls callee lists span)

/-- The expression is a function literal. -/
def Expr.IsFunction : Expr → Prop
  | .function .. => True
  | _ => False

/-- Some definitions and the result behind them find the names that they look up.
They are the body of a definition by the name `own`, if they are one at all, and
`known` tells the names that are defined before them. -/
inductive FindNames : Option Text → (Text → Prop) → List (Definition Scope) → Expr → Prop
  | result {own : Option Text} {known : Text → Prop} {x : Expr}
    (h : ∀ name, x.Free name → known name ∨ own = some name ∧ x.IsFunction) :
    FindNames own known [] x
  | definition {own : Option Text} {known : Text → Prop} {d : Definition Scope}
    {ds : List (Definition Scope)} {x : Expr}
    (hbody : FindNames (some d.name) known d.body.definitions d.body.result)
    (hrest : FindNames own (fun name => known name ∨ name = d.name) ds x) :
    FindNames own known (d :: ds) x

/-- The program finds all names that it looks up, where nothing is defined before it. -/
def Scope.WellScoped (program : Scope) : Prop :=
  FindNames none (fun _ => False) program.definitions program.result

end DrawLang
