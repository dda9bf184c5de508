/-
DrawLang/Script.lean

Scripts: what a host does with a machine, as data.  A script is a list of
steps.  A step invokes an operation, or brackets a script of its own: as the
body of a function that is called later, inside frames, or some levels deeper.

While a script runs, the machine keeps the slots that steps fill and the trace
of the steps that have completed, each with the state it left behind.  A fault
ends the body in which it occurs, and the step around that body fails with it
too; on the outermost level the script goes on with the next step.  A crash
ends everything.
-/
import DrawLang.Call
import DrawLang.Operand

namespace DrawLang

/-- What a step does; `σ` is the type of steps. -/
inductive Deed (σ : Type) where
  | define (name : Text) (value : Operand)
  | known (name : Text)
  | unknown (name : Text)
  | invoke (invocation : Invocation Operand)
  /-- Make a function whose body is a script. -/
  | close (params : List Text) (text : Text) (body : List σ)
  | call (callee : Operand) (args : List Operand)
  /-- Run a script one level deeper, inside frames given innermost first. -/
  | inside (frames : List (Frame Operand)) (body : List σ)
  /-- Run a script some levels deeper. -/
  | deeper (levels : Nat) (body : List σ)
  | checkpoint
  | cancel
  /-- Add frames, given innermost first. -/
  | push (frames : List (Frame Operand))
  | pop (count : Nat)
  | frames
  /-- Tell the site, and where one argument is. -/
  | site (argument : Nat)

/-- A step of a script. -/
structure Step where
  /-- What the trace calls the step. -/
  label : Text
  site : Site
  /-- The slot that keeps the value of the step. -/
  slot : Option Text
  deed : Deed Step

/-- What a step came to. -/
inductive StepResult where
  | done
  | value (value : Value (List Step))
  | name (name : Text)
  /-- All frames, innermost first. -/
  | frames (frames : List (Frame (Value (List Step))))
  | site (site : Site) (argument : Nat)
  | fault (fault : Fault)

/-- The value that a step yields, if it yields one. -/
def StepResult.value? : StepResult → Option (Value (List Step))
  | .value v => some v
  | _ => none

/-- A completed step and the state that it left behind. -/
structure TraceEntry where
  label : Text
  depth : Nat
  cancelled : Bool
  result : StepResult

/-- What goes along with a machine that runs scripts. -/
structure Bench where
  slots : Frame (Value (List Step))
  /-- The completed steps, the last one first. -/
  trace : List TraceEntry

/-- Nothing kept and nothing done. -/
def Bench.empty : Bench := ⟨[], []⟩

/-- An action of a script. -/
abbrev ScriptAction (α : Type) := Action (List Step) Bench α

namespace Script

/-- The value of an operand by the slots there are. -/
def resolve (o : Operand) : ScriptAction (Value (List Step)) :=
  return o.value (← get).host.slots

/-- Frames with the values of their operands. -/
def resolveFrames (frames : List (Frame Operand)) :
    ScriptAction (List (Frame (Value (List Step)))) := do
  let slots := (← get).host.slots
  return frames.map fun f => f.map fun e => (e.1, e.2.value slots)

/-- Note a completed step in the trace. -/
def note (label : Text) (result : StepResult) : ScriptAction Unit :=
  modify fun m =>
    let entry := ⟨label, m.environment.depth, m.cancelled, result⟩
    { m with host := { m.host with trace := entry :: m.host.trace } }

/-- Keep the value of a step in a slot. -/
def keep (slot : Option Text) (result : StepResult) : ScriptAction Unit :=
  match slot, result with
  | some name, .value v =>
    modify fun m => { m with host := { m.host with slots := m.host.slots.insert name v } }
  | _, _ => return ()

/-- Do a deed as a completed step: note it, keep its value, and pass its fault on. -/
def complete (label : Text) (slot : Option Text) (deed : ScriptAction StepResult) :
    ScriptAction StepResult := fun m =>
  match deed m with
  | .ok result m => (do note label result; keep slot result; return result : ScriptAction StepResult) m
  | .error (.fault f) m => (note label (.fault f) >>= fun _ => throw (Stop.fault f)) m
  | .error (.crash c) m => .error (.crash c) m

/-- How scripts are run: as they are, or some levels deeper. -/
structure Runner where
  run : List Step → ScriptAction (Value (List Step))
  deeper : Nat → Site → List Step → ScriptAction (Value (List Step))

mutual

/-- Do a deed, given how to run scripts one level deeper. -/
def deed (below : Option Runner) (site : Site) : Deed Step → ScriptAction StepResult
  | .define name value => do
    Action.define site name (← resolve value)
    return .done
  | .known name => return .value (← Action.known site name)
  | .unknown name => return .name (← Action.unknown site name)
  | .invoke invocation => do
    let slots := (← get).host.slots
    return .value (← Action.perform site (invocation.map (·.value slots)))
  | .close params text body => return .value (← Action.close params body text)
  | .call callee args => do
    let slots := (← get).host.slots
    let value ← Action.call (below.map Runner.run) site (callee.value slots)
      (args.map (·.value slots))
    return .value value
  | .inside frames body => do
    let frames ← resolveFrames frames
    let value ← Action.descend site below fun r => Action.inside site frames (r.run body)
    return .value value
  | .deeper 0 body => return .value (← steps below body (.number 0))
  | .deeper (levels + 1) body =>
    return .value (← Action.descend site below fun r => r.deeper levels site body)
  | .checkpoint => do
    Action.checkpoint site
    return .done
  | .cancel => do
    Action.cancel
    return .done
  | .push frames => do
    let frames ← resolveFrames frames
    modify fun m => { m with environment := m.environment.push frames }
    return .done
  | .pop count => do
    Action.remove count
    return .done
  | .frames => return .frames (← get).environment.frames
  | .site argument => return .site site argument

/-- Do the steps of a body; its value is the last one that a step yields, or
else the value given. -/
def steps (below : Option Runner) : List Step → Value (List Step) →
    ScriptAction (Value (List Step))
  | [], value => return value
  | ⟨label, site, slot, d⟩ :: more, value => do
    let result ← complete label slot (deed below site d)
    steps below more (result.value?.getD value)

end

/-- How to run scripts, given how it is done one level deeper. -/
def Runner.step (below : Option Runner) : Runner where
  run body := steps below body (.number 0)
  deeper
    | 0, _, body => steps below body (.number 0)
    | levels + 1, site, body => Action.descend site below fun r => r.deeper levels site body

/-- How to run scripts with a number of levels left. -/
def runner : Nat → Runner
  | 0 => .step none
  | levels + 1 => .step (some (runner levels))

/-- Run a script on the outermost level, where faults end nothing; the crash
that ended it, if there was one, and the machine afterwards. -/
def runAll : List Step → Machine (List Step) Bench → Option Crash × Machine (List Step) Bench
  | [], m => (none, m)
  | s :: more, m =>
    match (runner (levelLimit - m.level)).run [s] m with
    | .ok _ m => runAll more m
    | .error (.fault _) m => runAll more m
    | .error (.crash c) m => (some c, m)

/-- The completed steps of a script on a new machine, in order of completion,
and the crash that ended it, if there was one. -/
def trace (script : List Step) : List TraceEntry × Option Crash :=
  let (crash, m) := runAll script (.initial .empty)
  (m.host.trace.reverse, crash)

end Script

end DrawLang
