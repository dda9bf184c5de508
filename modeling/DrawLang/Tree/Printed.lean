/-
DrawLang/Tree/Printed.lean

The printed form of a tree: each part in parentheses, its name first.  The
program `def a 1 a(2)` is printed as `(prog (def a (prog 1)) (call a (2)))`.
Spans are not shown.
-/
import DrawLang.Text.Quoted
import DrawLang.Tree.Basic

namespace DrawLang

/-- Texts with a space between them. -/
def Text.spaced (ts : List Text) : Text := [' '].intercalate ts

/-- An atom as it is printed; a built-in by its full name. -/
def Atom.printed : Atom → Text
  | number value => value.display
  | string value => Text.quoted value
  | color value => value.name
  | builtin value => value.name
  | .name id => id

mutual

/-- The printed form of an expression. -/
def Expr.printed : Expr → Text
  | .atom a _ => a.printed
  | .function params body _ =>
    "(fn (".toList ++ Text.spaced (params.map Param.name) ++ ") ".toList ++ body.printed ++ [')']
  | .calls callee lists _ =>
    "(call ".toList ++ callee.printed ++ Expr.printedLists lists ++ [')']

/-- The printed form of argument lists, with a space before each. -/
def Expr.printedLists : List (Arguments Expr) → Text
  | [] => []
  | ⟨items, _⟩ :: lists =>
    " (".toList ++ Text.spaced (Expr.printedItems items) ++ ')' :: Expr.printedLists lists

/-- The printed forms of several expressions. -/
def Expr.printedItems : List Expr → List Text
  | [] => []
  | e :: es => e.printed :: Expr.printedItems es

end

mutual

/-- The printed form of a scope. -/
def Scope.printed : Scope → Text
  | ⟨definitions, result, _⟩ =>
    "(prog".toList ++ Scope.printedDefinitions definitions ++ ' ' :: result.printed ++ [')']

/-- The printed form of definitions, with a space before each. -/
def Scope.printedDefinitions : List (Definition Scope) → Text
  | [] => []
  | ⟨name, _, body, _⟩ :: ds =>
    " (def ".toList ++ name ++ ' ' :: body.printed ++ ')' :: Scope.printedDefinitions ds

end

end DrawLang
