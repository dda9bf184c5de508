/-
DrawLang/Proofs/Reference/Basic.lean

A reference semantics without a stack of frames.  What names mean is told by
bindings that are handed down and never changed: a scope evaluates its
definitions in order, each under the bindings extended so far, and a function
literal keeps the bindings it is evaluated under.

A function is called under its parameters, its own name and the bindings that
it keeps, in this order.  What any further name means in its body is a matter of
`Scoping`: with lexical scoping nothing, with dynamic scoping what it means
where the function is called.

The machine lends its levels, its stamps and its request to stop; its
environment is neither read nor written.
-/
import DrawLang.Proofs.Environment.Lookup

namespace DrawLang

/-- What names mean to an expression; the first entry of a name counts. -/
abbrev Bindings := Frame (Value Code)

/-- What the names mean in a body that its function binds and keeps nothing for. -/
inductive Scoping where
  /-- They mean nothing. -/
  | lexical
  /-- They mean what they mean where the function is called. -/
  | dynamic
  deriving DecidableEq

/-- The bindings that are left for names which a function does not bind itself. -/
def Scoping.around (s : Scoping) (site : Bindings) : Bindings :=
  match s with
  | lexical => []
  | dynamic => site

/-- The bindings that the body of a function is evaluated under. -/
def Function.bindings (f : Function Code) (s : Scoping) (site : Bindings)
    (args : List (Value Code)) : Bindings :=
  f.locals args ++ f.kept ++ s.around site

namespace Reference

variable {ε : Type}

/-- What a name means under some bindings. -/
def known (ρ : Bindings) (site : Site) (name : Text) : Action Code ε (Value Code) :=
  match ρ.find? name with
  | some v => return v
  | none => throw (site.blameArgument 0 .boundName name)

/-- The value of an atom. -/
def atom (ρ : Bindings) (source : Text) (span : Span) : Atom → Action Code ε (Value Code)
  | .number value => return .number value
  | .string value => return .string value
  | .color value => return .color value
  | .builtin value => return .builtin value
  | .name id => known ρ ⟨source, span, [span.start]⟩ id

/-- Bind a name in a scope, which must not bind it yet. -/
def define (own : Bindings) (site : Site) (name : Text) (value : Value Code) :
    Action Code ε Bindings :=
  if own.has name then throw (site.blameArgument 0 .newName name)
  else return own.insert name (← Action.named name value)

/-- The bindings of a scope behind some definitions: `own` are those it has made so
far, `ρ` those around it. -/
def definitions (e : Bindings → Evaluator ε) (source : Text) (ρ own : Bindings) :
    List (Definition Scope) → Action Code ε Bindings
  | [] => return own
  | d :: ds => do
    let value ← (e (own ++ ρ)).scope source d.body
    let own ← define own ⟨source, d.span, [d.nameSpan.start]⟩ d.name value
    definitions e source ρ own ds

/-- How to evaluate under some bindings, given how it is done one level deeper. -/
def step (s : Scoping) (deeper : Option (Bindings → Evaluator ε)) (ρ : Bindings) : Evaluator ε where
  expr source
    | .atom a span => atom ρ source span a
    | .function params body _ => do
      let stamp ← Action.stamp
      let code : Code := ⟨body, source⟩
      return .function
        { stamp, name := none, params := params.map Param.name, closure := [ρ], body := code,
          text := code.literalText params }
    | .calls callee lists span =>
      Action.descend (.plain source span) deeper fun e => do
        let value ← (e ρ).expr source callee
        (e ρ).lists source value callee.span lists
  scope source program :=
    Action.descend (.plain source program.span) deeper fun e => do
      Action.checkpoint (.plain source program.span)
      let own ← definitions e source ρ [] program.definitions
      (e (own ++ ρ)).expr source program.result
  call site callee args :=
    match callee with
    | .function f =>
      if f.arity.accepts args.length then
        Action.descend site deeper fun e => do
          Action.checkpoint site
          (e (f.bindings s ρ args)).expr f.body.source f.body.expr
      else throw (Action.blameArity site f.arity args.length)
    | callee => Action.call none site callee args

/-- A call of anything but a function has nothing to do with bindings. -/
theorem step_call_of_plain (s : Scoping) (deeper : Option (Bindings → Evaluator ε)) (ρ : Bindings)
    (site : Site) {callee : Value Code} (args : List (Value Code))
    (h : ∀ f, callee ≠ .function f) :
    (step s deeper ρ).call site callee args = Action.call none site callee args := by
  cases callee with
  | function f => exact absurd rfl (h f)
  | number | string | color | sequence | vector | shape | builtin => rfl

/-- How to evaluate under some bindings with a number of levels left. -/
def evaluator (s : Scoping) : Nat → Bindings → Evaluator ε
  | 0 => step s none
  | levels + 1 => step s (some (evaluator s levels))

/-- Run a program under what the names mean on the machine. -/
def run (s : Scoping) (program : Scope) (source : Text) : Action Code ε (Value Code) := fun m =>
  (evaluator s (levelLimit - m.level) m.environment.frames.flatten).scope source program m

/-- Call a value from outside of any program. -/
def apply (s : Scoping) (callee : Value Code) (args : List (Value Code)) :
    Action Code ε (Value Code) := fun m =>
  (evaluator s (levelLimit - m.level) m.environment.frames.flatten).call
    (.plain callee.display ⟨0, callee.display.bytes⟩) callee args m

end Reference

end DrawLang
