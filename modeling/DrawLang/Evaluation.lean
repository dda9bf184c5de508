/-
DrawLang/Evaluation.lean

Evaluation of programs.  The definitions of a scope are evaluated in order,
each where the ones before it are bound, and then its result.  A function
literal keeps the frames around it.  In a chain of calls the callee comes
first, then the arguments from left to right; the first stop ends it all.

A scope, a chain of calls and a call of a function each take one level.
`Evaluator.step` says how to evaluate given how to do it one level deeper, and
`evaluator` puts as many levels on top of each other as there are left.
-/
import DrawLang.Call
import DrawLang.Tree.OfTokens

namespace DrawLang

/-- The body of a function in a program: an expression and the text it stands in. -/
structure Code where
  expr : Expr
  source : Text

/-- The site of a construct without arguments. -/
def Site.plain (source : Text) (span : Span) : Site := ⟨source, span, []⟩

/-- How a function literal is shown. -/
def Code.literalText (params : List Param) (code : Code) : Text :=
  '(' :: [' '].intercalate (params.map Param.name) ++ ") -> ".toList ++
    code.expr.span.text code.source

/-- The value of an atom. -/
def Atom.value {ε : Type} (source : Text) (span : Span) : Atom → Action Code ε (Value Code)
  | number value => return .number value
  | string value => return .string value
  | color value => return .color value
  | builtin value => return .builtin value
  | .name id => Action.known ⟨source, span, [span.start]⟩ id

/-- How the parts of a program are evaluated. -/
structure Evaluator (ε : Type) where
  expr : Text → Expr → Action Code ε (Value Code)
  scope : Text → Scope → Action Code ε (Value Code)
  call : Site → Value Code → List (Value Code) → Action Code ε (Value Code)

namespace Evaluator

variable {ε : Type}

/-- The values of some expressions, from left to right. -/
def items (e : Evaluator ε) (source : Text) : List Expr → Action Code ε (List (Value Code))
  | [] => return []
  | x :: xs => do
    let v ← e.expr source x
    let vs ← e.items source xs
    return v :: vs

/-- Call a value, which stands at `span`, with one argument list after another. -/
def lists (e : Evaluator ε) (source : Text) (value : Value Code) (span : Span) :
    List (Arguments Expr) → Action Code ε (Value Code)
  | [] => return value
  | list :: more => do
    let args ← e.items source list.items
    let value ← e.call ⟨source, span, list.items.map fun x => x.span.start⟩ value args
    e.lists source value (span.upTo list.span) more

/-- Evaluate and bind some definitions. -/
def definitions (e : Evaluator ε) (source : Text) :
    List (Definition Scope) → Action Code ε Unit
  | [] => return ()
  | d :: ds => do
    let value ← e.scope source d.body
    Action.define ⟨source, d.span, [d.nameSpan.start]⟩ d.name value
    e.definitions source ds

/-- How to evaluate, given how it is done one level deeper. -/
def step (deeper : Option (Evaluator ε)) : Evaluator ε where
  expr source
    | .atom a span => a.value source span
    | .function params body _ =>
      let code : Code := ⟨body, source⟩
      Action.close (params.map Param.name) code (code.literalText params)
    | .calls callee lists span =>
      Action.descend (.plain source span) deeper fun e => do
        let value ← e.expr source callee
        e.lists source value callee.span lists
  scope source s :=
    Action.descend (.plain source s.span) deeper fun e =>
      Action.inside (.plain source s.span) [[]] do
        e.definitions source s.definitions
        e.expr source s.result
  call site callee args :=
    Action.call (deeper.map fun e code => e.expr code.source code.expr) site callee args

end Evaluator

/-- How to evaluate with a number of levels left. -/
def evaluator {ε : Type} : Nat → Evaluator ε
  | 0 => .step none
  | levels + 1 => .step (some (evaluator levels))

namespace Machine

variable {ε : Type}

/-- How to evaluate on a machine: with the levels that are not active yet. -/
def evaluator (m : Machine Code ε) : Evaluator ε := DrawLang.evaluator (levelLimit - m.level)

/-- Run a program; its spans refer to `source`. -/
def run (program : Scope) (source : Text) : Action Code ε (Value Code) := do
  (← get).evaluator.scope source program

/-- Read and run a program text. -/
def evaluate (source : Text) : Action Code ε (Value Code) :=
  match Scope.ofText source with
  | .error m => throw (m.stop source)
  | .ok program => run program source

/-- Call a value from outside of any program; faults are placed in how the callee is shown. -/
def apply (callee : Value Code) (args : List (Value Code)) : Action Code ε (Value Code) := do
  let text := callee.display
  (← get).evaluator.call (.plain text ⟨0, text.bytes⟩) callee args

end Machine

end DrawLang
