/-
DrawLang/Machine.lean

The machine that programs run on, and its basic actions.

A machine has an environment, the number of levels that are active, a request
to stop that may be pending, and the number of functions made so far, which
stamps the next one.  Whatever else a host wants to keep goes along as `host`.

An action changes a machine and yields a value, or stops with a fault or a
crash; the machine is there in either case.  Two actions put another one in
brackets:

* `descend` runs it one level deeper, if a level is left.  What runs there is
  handed in as what there is one level deeper, so that no more than
  `levelLimit` levels can ever be active.
* `inside` runs it with some frames added, and removes as many afterwards.

A pending request is felt at the next checkpoint, which takes it away.
-/
import DrawLang.Site

namespace DrawLang

/-- The largest number of levels that can be active. -/
def levelLimit : Nat := 128

/-- The state of an evaluation, for bodies of type `β` and a host that keeps an `ε`. -/
structure Machine (β ε : Type) where
  environment : Environment (Value β)
  /-- The number of active levels. -/
  level : Nat
  /-- Is a request to stop pending? -/
  cancelled : Bool
  /-- The number of functions made so far. -/
  created : Nat
  host : ε

/-- A machine at rest with nothing bound. -/
def Machine.initial {β ε : Type} (host : ε) : Machine β ε := ⟨.empty, 0, false, 0, host⟩

/-- What can be done on a machine. -/
abbrev Action (β ε α : Type) := EStateM Stop (Machine β ε) α

namespace Action

variable {β ε α δ : Type}

/-- Yield a checked result, or stop. -/
def check : Except Stop α → Action β ε α
  | .ok a => pure a
  | .error stop => throw stop

/-! ### Requests to stop -/

/-- Ask the machine to stop at the next checkpoint. -/
def cancel : Action β ε Unit := modify fun m => { m with cancelled := true }

/-- Stop if that was asked for, and take the request away. -/
def checkpoint (site : Site) : Action β ε Unit := fun m =>
  if m.cancelled then
    .error (site.blame .completion "interruption".toList) { m with cancelled := false }
  else .ok () m

/-- The checkpoints on the way to a number of items.  No request can come up
in between, so they amount to one, and to none if there are no items. -/
def checkpoints (site : Site) (count : Nat) : Action β ε Unit :=
  if count = 0 then pure () else checkpoint site

/-! ### Levels and frames -/

/-- Do something one level deeper, with what there is at that level. -/
def descend (site : Site) (deeper : Option δ) (body : δ → Action β ε α) : Action β ε α := fun m =>
  match deeper with
  | none => .error (site.blame (.levels .depth levelLimit) "deeper nesting".toList) m
  | some d =>
    match body d { m with level := m.level + 1 } with
    | .ok a m => .ok a { m with level := m.level - 1 }
    | .error stop m => .error stop { m with level := m.level - 1 }

/-- Remove frames again, which crashes if there are not so many. -/
def remove (count : Nat) : Action β ε Unit := fun m =>
  match m.environment.pop? count with
  | some environment => .ok () { m with environment }
  | none => .error (.crash (.emptyStack count m.environment.depth)) m

/-- Do something with frames added, given innermost first.  They are removed
whether it ends in a value or in a fault. -/
def inside (site : Site) (frames : List (Frame (Value β))) (body : Action β ε α) :
    Action β ε α := fun m =>
  match (checkpoint site >>= fun _ => body) { m with environment := m.environment.push frames } with
  | .ok a m => (remove frames.length >>= fun _ => pure a) m
  | .error (.fault f) m => (remove frames.length >>= fun _ => throw (.fault f)) m
  | .error (.crash c) m => .error (.crash c) m

/-! ### Names -/

/-- The stamp for a function that is being made. -/
def stamp : Action β ε Nat := fun m => .ok m.created { m with created := m.created + 1 }

/-- The value as a definition binds it: a function without a name takes the name. -/
def named (name : Text) : Value β → Action β ε (Value β)
  | .function f =>
    match f.name with
    | none => do
      let stamp ← stamp
      return .function { f with stamp, name := some name }
    | some _ => return .function f
  | v => return v

/-- Bind a name in the innermost frame, which must not bind it yet. -/
def define (site : Site) (name : Text) (value : Value β) : Action β ε Unit := do
  if (← get).environment.hasLocal name then throw (site.blameArgument 0 .newName name)
  let value ← named name value
  modify fun m => { m with environment := m.environment.insert name value }

/-- What a name means. -/
def known (site : Site) (name : Text) : Action β ε (Value β) := fun m =>
  match m.environment.find? name with
  | some v => .ok v m
  | none => .error (site.blameArgument 0 .boundName name) m

/-- Make sure that a name means nothing. -/
def unknown (site : Site) (name : Text) : Action β ε Text := fun m =>
  if m.environment.has name then .error (site.blameArgument 0 .freeName name) m else .ok name m

/-- Make a function that keeps all frames there are now. -/
def close (params : List Text) (body : β) (text : Text) : Action β ε (Value β) := do
  let stamp ← stamp
  return .function
    { stamp, name := none, params, closure := (← get).environment.frames, body, text }

end Action

end DrawLang
