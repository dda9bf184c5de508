/-
DrawLang/Operand.lean

Operands: how a host writes down a value.  Everything but a function can be
written down directly; any value that was kept before, functions included, is
named by the slot that it was kept in.
-/
import DrawLang.Value.Basic

namespace DrawLang

/-- A value as it is written down, or the name of a slot. -/
inductive Operand where
  | number (value : Number)
  | string (value : Text)
  | color (value : Color)
  | vector (value : Vector)
  | shape (value : Shape)
  | builtin (value : Builtin)
  | sequence (items : List Operand)
  | slot (name : Text)

namespace Operand

variable {β : Type}

mutual

/-- The value of an operand.  A slot that was never filled stands for zero. -/
def value (slots : Frame (Value β)) : Operand → Value β
  | number value => .number value
  | string value => .string value
  | color value => .color value
  | vector value => .vector value
  | shape value => .shape value
  | builtin value => .builtin value
  | sequence items => .sequence (values slots items)
  | slot name => (slots.find? name).getD (.number 0)

/-- The values of several operands. -/
def values (slots : Frame (Value β)) : List Operand → List (Value β)
  | [] => []
  | o :: os => value slots o :: values slots os

end

end Operand

end DrawLang
