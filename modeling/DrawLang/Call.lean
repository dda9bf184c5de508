/-
DrawLang/Call.lean

Calls.  A sequence is called with a position, and gives the item there or
else a default; a function and a built-in are called with as many arguments as
their arity accepts.  Nothing else can be called.

A call of a function runs its body one level deeper, inside the frames that it
keeps and a frame of its own, which binds first its name and then its
parameters.
-/
import DrawLang.Invocation

namespace DrawLang

variable {β ε : Type}

/-- The frame of a call: the name of the function, if it has one, and its parameters. -/
def Function.locals (f : Function β) (args : List (Value β)) : Frame (Value β) :=
  let own : Frame (Value β) :=
    match f.name with
    | some name => [(name, .function f)]
    | none => []
  own.insertAll (f.params.zip args)

namespace Action

/-- The stop for a wrong number of arguments. -/
def blameArity (site : Site) (arity : Arity) (count : Nat) : Stop :=
  site.blame (.arguments arity.display) (Decimal.row count)

/-- The item at a position, counted from one. -/
def itemAt? (items : List (Value β)) (i : Int) : Option (Value β) :=
  if 1 ≤ i then items[i.toNat - 1]? else none

/-- Call a sequence. -/
def callSequence (site : Site) (items args : List (Value β)) : Action β ε (Value β) :=
  match args with
  | [] => throw (blameArity site (.between 1 2) args.length)
  | position :: more =>
    if 1 < more.length then throw (blameArity site (.between 1 2) args.length)
    else do
      let i ← check (site.integer 0 position)
      match (itemAt? items i).or more.head? with
      | some v => return v
      | none => throw (site.blameArgument 0 (.index items.length) (Number.integerText i))

/-- Call a function; `run` runs a body one level deeper, if a level is left. -/
def callFunction (run : Option (β → Action β ε (Value β))) (site : Site) (f : Function β)
    (args : List (Value β)) : Action β ε (Value β) :=
  if f.arity.accepts args.length then
    descend site run fun run => inside site (f.locals args :: f.closure) (run f.body)
  else throw (blameArity site f.arity args.length)

/-- Call a built-in. -/
def callBuiltin (site : Site) (b : Builtin) (args : List (Value β)) : Action β ε (Value β) :=
  if b.arity.accepts args.length then
    match Invocation.ofArguments? b args with
    | some invocation => perform site invocation
    | none => throw (blameArity site b.arity args.length)
  else throw (blameArity site b.arity args.length)

/-- Call a value. -/
def call (run : Option (β → Action β ε (Value β))) (site : Site) (callee : Value β)
    (args : List (Value β)) : Action β ε (Value β) :=
  match callee with
  | .sequence items => callSequence site items args
  | .function f => callFunction run site f args
  | .builtin b => callBuiltin site b args
  | _ => throw (site.blame .callable site.text)

end Action

end DrawLang
