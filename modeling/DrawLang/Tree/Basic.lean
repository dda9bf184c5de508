/-
DrawLang/Tree/Basic.lean

Programs as trees.

* An *expression* is an atom (one token: a literal, a built-in or a name), a
  function literal, or a callee followed by one or more argument lists.
* A *scope* is a row of definitions and the expression whose value it has; the
  body of a definition is a scope of its own.  A program is a scope.

Every part keeps its span, the byte offsets where it starts and stops in the
program text.
-/
import DrawLang.Builtin
import DrawLang.Color
import DrawLang.Text.Basic

namespace DrawLang

/-- The bytes from `start` up to but not including `stop`. -/
structure Span where
  start : Nat
  stop : Nat
  deriving DecidableEq, Repr

namespace Span

/-- The part of a text at a span; nothing if the span does not fit it. -/
def text (s : Span) (source : Text) : Text := source.slice s.start s.stop

/-- From the start of one span to the stop of another. -/
def upTo (s u : Span) : Span := ⟨s.start, u.stop⟩

end Span

/-- An expression of one token. -/
inductive Atom where
  | number (value : Number)
  | string (value : Text)
  | color (value : Color)
  | builtin (value : Builtin)
  /-- A name that must be bound. -/
  | name (name : Text)
  deriving DecidableEq

/-- A parameter of a function literal. -/
structure Param where
  name : Text
  span : Span
  deriving DecidableEq, Repr

/-- An argument list with its parentheses. -/
structure Arguments (α : Type) where
  items : List α
  span : Span

/-- An expression. -/
inductive Expr where
  | atom (atom : Atom) (span : Span)
  | function (params : List Param) (body : Expr) (span : Span)
  | calls (callee : Expr) (lists : List (Arguments Expr)) (span : Span)

/-- The span of an expression. -/
def Expr.span : Expr → Span
  | atom _ s => s
  | function _ _ s => s
  | calls _ _ s => s

/-- A definition of a name by a body. -/
structure Definition (β : Type) where
  name : Text
  nameSpan : Span
  body : β
  /-- From the keyword to the end of the body. -/
  span : Span

/-- Definitions followed by the expression that they are for. -/
structure Scope where
  definitions : List (Definition Scope)
  result : Expr
  span : Span

/-- The deepest nesting of scopes and expressions that a program can have. -/
def nestingLimit : Nat := 64

end DrawLang
