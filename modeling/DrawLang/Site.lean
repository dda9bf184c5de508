/-
DrawLang/Site.lean

Where an operation is invoked: the program text, the span of the callee in it,
and the offset of each argument.  From a site the arguments of an operation
are checked: where one is not what is wanted, the fault points at it.  An
argument that is not in the text is taken to be where the callee is.
-/
import DrawLang.Fault
import DrawLang.Tree.Basic
import DrawLang.Value.Shown

namespace DrawLang

/-- The place of an invocation. -/
structure Site where
  source : Text
  span : Span
  /-- The offset of each argument. -/
  arguments : List Nat
  deriving DecidableEq, Repr

namespace Site

variable {β : Type}

/-- An invocation without program text. -/
def detached : Site := ⟨[], ⟨0, 0⟩, []⟩

/-- Where the callee starts. -/
def start (s : Site) : Nat := s.span.start

/-- The text of the callee. -/
def text (s : Site) : Text := s.span.text s.source

/-- Where an argument starts. -/
def argument (s : Site) (i : Nat) : Nat := s.arguments[i]?.getD s.start

/-- The stop for a fault of the callee. -/
def blame (s : Site) (wanted : Wanted) (got : Text) : Stop :=
  .at s.source s.start wanted (some got)

/-- The stop for a fault of an argument. -/
def blameArgument (s : Site) (i : Nat) (wanted : Wanted) (got : Text) : Stop :=
  .at s.source (s.argument i) wanted (some got)

/-! ### Checked arguments -/

/-- What a view shows of an argument, or the fault that it is not what is wanted. -/
def expect {α : Type} (s : Site) (i : Nat) (wanted : Wanted) (view : Value β → Option α)
    (v : Value β) : Except Stop α :=
  match view v with
  | some a => .ok a
  | none => .error (s.blameArgument i wanted v.display)

/-- An argument that is a number. -/
def number (s : Site) (i : Nat) : Value β → Except Stop Number := s.expect i .number Value.number?

/-- An argument that is a color. -/
def color (s : Site) (i : Nat) : Value β → Except Stop Color := s.expect i .color Value.color?

/-- An argument that is a sequence. -/
def sequence (s : Site) (i : Nat) : Value β → Except Stop (List (Value β)) :=
  s.expect i .data Value.sequence?

/-- An argument that is a shape. -/
def shape (s : Site) (i : Nat) : Value β → Except Stop Shape := s.expect i .shape Value.shape?

/-- An argument that is a vector. -/
def vector (s : Site) (i : Nat) : Value β → Except Stop Vector := s.expect i .vector Value.vector?

/-- An argument that is a whole number, as the nearest signed 64-bit word. -/
def integer (s : Site) (i : Nat) (v : Value β) : Except Stop Int :=
  match s.number i v with
  | .error stop => .error stop
  | .ok n =>
    match n.whole? with
    | some k => .ok (Number.clamped k)
    | none => .error (s.blameArgument i .integer v.display)

/-- An argument that is a whole number and not negative. -/
def count (s : Site) (i : Nat) (v : Value β) : Except Stop Nat :=
  match s.integer i v with
  | .error stop => .error stop
  | .ok k => if 0 ≤ k then .ok k.toNat else .error (s.blameArgument i .count v.display)

/-- An optional argument, with what it is when it is missing. -/
def optional {α : Type} (default : α) (check : Value β → Except Stop α) :
    Option (Value β) → Except Stop α
  | none => .ok default
  | some v => check v

end Site

end DrawLang
