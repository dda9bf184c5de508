/-
DrawLang/Invocation.lean

Invocations of the built-in operations.  An invocation holds the arguments of
one operation by their parameters; `ofArguments?` finds the place of each
argument of a call.

Arguments are checked in the order of the parameters, and the first one that
is not what is wanted is blamed; only `repeat` looks at its count before its
data.  After that an operation that makes a sequence passes the checkpoints for
its items.
-/
import DrawLang.Bernoulli.Table
import DrawLang.Machine

namespace DrawLang

/-- A built-in operation with its arguments. -/
inductive Invocation (α : Type) where
  | range (count start : α) (step : Option α)
  | concat (values : List α)
  | repeat (data count : α)
  | slice (data start : α) (stop : Option α)
  | length (data : α)
  | adaLovelace (count : α)
  | square (size color : α) (rotation : Option α)
  | parallelogram (base height offset color : α) (rotation : Option α)
  | merge (first second : α) (anchor rotation : Option α)
  | vector (x y : α)

namespace Invocation

/-- The invocation of a built-in with arguments in order, if their number fits. -/
def ofArguments? {α : Type} : Builtin → List α → Option (Invocation α)
  | .range, count :: start :: more => some (.range count start more[0]?)
  | .square, size :: color :: more => some (.square size color more[0]?)
  | .parallelogram, base :: height :: offset :: color :: more =>
    some (.parallelogram base height offset color more[0]?)
  | .merge, first :: second :: more => some (.merge first second more[0]? more[1]?)
  | .vector, [x, y] => some (.vector x y)
  | .concat, values => some (.concat values)
  | .repeat, [data, count] => some (.repeat data count)
  | .slice, data :: start :: more => some (.slice data start more[0]?)
  | .length, [data] => some (.length data)
  | .adaLovelace, [count] => some (.adaLovelace count)
  | _, _ => none

/-- The same invocation with other arguments. -/
def map {α γ : Type} (f : α → γ) : Invocation α → Invocation γ
  | range count start step => .range (f count) (f start) (step.map f)
  | concat values => .concat (values.map f)
  | .repeat data count => .repeat (f data) (f count)
  | slice data start stop => .slice (f data) (f start) (stop.map f)
  | length data => .length (f data)
  | adaLovelace count => .adaLovelace (f count)
  | square size color rotation => .square (f size) (f color) (rotation.map f)
  | parallelogram base height offset color rotation =>
    .parallelogram (f base) (f height) (f offset) (f color) (rotation.map f)
  | merge first second anchor rotation =>
    .merge (f first) (f second) (anchor.map f) (rotation.map f)
  | vector x y => .vector (f x) (f y)

end Invocation

namespace Value

variable {β : Type}

/-! ### Sequences -/

/-- As many numbers as `count` says, from `start` on and `step` apart. -/
def numbers (count : Nat) (start step : Number) : List (Value β) :=
  (List.range count).map fun i => .number (start + Float.ofNat i * step)

/-- What a value adds to a joined sequence: its items if it is a sequence, and else itself. -/
def spread : Value β → List (Value β)
  | sequence items => items
  | v => [v]

/-- As many items as `count` says, going round and round. -/
def cycle (items : List (Value β)) (count : Nat) : List (Value β) :=
  let row := items.toArray
  (List.range count).filterMap fun i => row[i % row.size]?

/-- How many of `length` items are before a start position: positions count
from one, negative ones from the end. -/
def before (length start : Int) : Int :=
  if 0 < start then start - 1 else if start < 0 then length + start else 0

/-- How many of `length` items are up to an end position, which is included. -/
def upTo (length : Int) : Option Int → Int
  | none => length
  | some stop => if stop < 0 then length + stop + 1 else stop

/-- A number of items that there can be. -/
def within (length i : Int) : Nat := (min length (max 0 i)).toNat

/-- The items from a start position to an end position. -/
def cutOut (items : List (Value β)) (start : Int) (stop : Option Int) : List (Value β) :=
  (items.take (within items.length (upTo items.length stop))).drop
    (within items.length (before items.length start))

end Value

namespace Action

variable {β ε : Type}

/-- Numbers from a start on, one apart or as far as is said. -/
def range (site : Site) (count start : Value β) (step : Option (Value β)) :
    Action β ε (Value β) := do
  let count ← check (site.count 0 count)
  let start ← check (site.number 1 start)
  let step ← check (Site.optional 1 (site.number 2) step)
  checkpoints site count
  return .sequence (Value.numbers count start step)

/-- The items of all values, one level of sequences opened. -/
def concat (site : Site) (values : List (Value β)) : Action β ε (Value β) := do
  let items := values.flatMap Value.spread
  checkpoints site items.length
  return .sequence items

/-- As many items as are wanted, going round and round through the data. -/
def «repeat» (site : Site) (data count : Value β) : Action β ε (Value β) := do
  let count ← check (site.count 1 count)
  let items := data.spread
  if items.isEmpty ∧ 0 < count then throw (site.blameArgument 0 .data data.display)
  checkpoints site count
  return .sequence (Value.cycle items count)

/-- The part of a sequence between two positions. -/
def slice (site : Site) (data start : Value β) (stop : Option (Value β)) :
    Action β ε (Value β) := do
  let items ← check (site.sequence 0 data)
  let start ← check (site.integer 1 start)
  let stop ← check (Site.optional none (fun v => (site.integer 2 v).map some) stop)
  return .sequence (Value.cutOut items start stop)

/-- The number of items of a sequence. -/
def length (site : Site) (data : Value β) : Action β ε (Value β) := do
  let items ← check (site.sequence 0 data)
  return .number (Float.ofNat items.length)

/-- The first Bernoulli numbers from index two on, as texts. -/
def adaLovelace (site : Site) (count : Value β) : Action β ε (Value β) := do
  let count ← check (site.count 0 count)
  checkpoints site count
  match Bernoulli.texts count with
  | .ok texts => return .sequence (texts.map .string)
  | .error (.crash c) => throw (.crash c)
  | .error _ => throw (site.blameArgument 0 .smallerCount (Decimal.row count))

/-- A square. -/
def square (site : Site) (size color : Value β) (rotation : Option (Value β)) :
    Action β ε (Value β) := do
  let size ← check (site.number 0 size)
  let color ← check (site.color 1 color)
  let rotation ← check (Site.optional 0 (site.number 2) rotation)
  return .shape (.square size color rotation)

/-- A parallelogram. -/
def parallelogram (site : Site) (base height offset color : Value β)
    (rotation : Option (Value β)) : Action β ε (Value β) := do
  let base ← check (site.number 0 base)
  let height ← check (site.number 1 height)
  let offset ← check (site.number 2 offset)
  let color ← check (site.color 3 color)
  let rotation ← check (Site.optional 0 (site.number 4) rotation)
  return .shape (.parallelogram base height offset color rotation)

/-- Two shapes as one. -/
def merge (site : Site) (first second : Value β) (anchor rotation : Option (Value β)) :
    Action β ε (Value β) := do
  let first ← check (site.shape 0 first)
  let second ← check (site.shape 1 second)
  let anchor ← check (Site.optional Vector.zero (site.vector 2) anchor)
  let rotation ← check (Site.optional 0 (site.number 3) rotation)
  return .shape (.composite first second anchor rotation)

/-- A vector. -/
def vector (site : Site) (x y : Value β) : Action β ε (Value β) := do
  let x ← check (site.number 0 x)
  let y ← check (site.number 1 y)
  return .vector ⟨x, y⟩

/-- Carry out an invocation. -/
def perform (site : Site) : Invocation (Value β) → Action β ε (Value β)
  | .range count start step => range site count start step
  | .concat values => concat site values
  | .repeat data count => «repeat» site data count
  | .slice data start stop => slice site data start stop
  | .length data => length site data
  | .adaLovelace count => adaLovelace site count
  | .square size color rotation => square site size color rotation
  | .parallelogram base height offset color rotation =>
    parallelogram site base height offset color rotation
  | .merge first second anchor rotation => merge site first second anchor rotation
  | .vector x y => vector site x y

end Action

end DrawLang
