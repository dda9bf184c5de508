/-
DrawLang/Tree/Outline.lean

The outline of a tree: its parts in the order in which they start, each with
its depth and its span.  A definition is one deeper than its scope and its
body one deeper than the definition; the result of a scope, the body of a
function, the callee and the argument lists are one deeper than what they
belong to, and arguments one deeper than their list.
-/
import DrawLang.Tree.Basic

namespace DrawLang

/-- What a line of an outline tells of a part. -/
inductive Heading where
  /-- A scope with a number of definitions. -/
  | scope (definitions : Nat)
  | definition (name : Text) (nameSpan : Span)
  | function (params : List Param)
  /-- A callee with a number of argument lists. -/
  | calls (lists : Nat)
  /-- An argument list with a number of arguments. -/
  | arguments (items : Nat)
  | atom (atom : Atom)

/-- A line of an outline. -/
structure OutlineEntry where
  depth : Nat
  heading : Heading
  span : Span

mutual

/-- The outline of an expression that is at the given depth. -/
def Expr.outline (depth : Nat) : Expr → List OutlineEntry
  | .atom a span => [⟨depth, .atom a, span⟩]
  | .function params body span => ⟨depth, .function params, span⟩ :: body.outline (depth + 1)
  | .calls callee lists span =>
    ⟨depth, .calls lists.length, span⟩ ::
      (callee.outline (depth + 1) ++ Expr.outlineLists (depth + 1) lists)

/-- The outline of argument lists at the given depth. -/
def Expr.outlineLists (depth : Nat) : List (Arguments Expr) → List OutlineEntry
  | [] => []
  | ⟨items, span⟩ :: lists =>
    ⟨depth, .arguments items.length, span⟩ ::
      (Expr.outlineItems (depth + 1) items ++ Expr.outlineLists depth lists)

/-- The outline of expressions at the given depth. -/
def Expr.outlineItems (depth : Nat) : List Expr → List OutlineEntry
  | [] => []
  | e :: es => e.outline depth ++ Expr.outlineItems depth es

end

mutual

/-- The outline of a scope that is at the given depth. -/
def Scope.outline (depth : Nat) : Scope → List OutlineEntry
  | ⟨definitions, result, span⟩ =>
    ⟨depth, .scope definitions.length, span⟩ ::
      (Scope.outlineDefinitions (depth + 1) definitions ++ result.outline (depth + 1))

/-- The outline of definitions at the given depth. -/
def Scope.outlineDefinitions (depth : Nat) : List (Definition Scope) → List OutlineEntry
  | [] => []
  | ⟨name, nameSpan, body, span⟩ :: ds =>
    ⟨depth, .definition name nameSpan, span⟩ ::
      (body.outline (depth + 1) ++ Scope.outlineDefinitions depth ds)

end

end DrawLang
