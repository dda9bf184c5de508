/-
DrawLang/Value/Basic.lean

Values.  A value is a number, a string, a color, a vector, a shape, a built-in,
a sequence of values or a function.  All of it is plain data: a function
carries its parameters, the frames that were visible where it was made, and a
body to be run in them.  What a body is is left open; programs use expressions
with the text they stand in, and hosts may use bodies of their own.

Functions are compared by identity: each one that is made gets a stamp of its
own, and a copy under another name is a new one.  Everything else is compared
by content, numbers as numbers.
-/
import DrawLang.Builtin
import DrawLang.Environment
import DrawLang.Shape

namespace DrawLang

mutual

/-- A function: code with the frames it was made in. -/
structure Function (β : Type) where
  /-- Tells functions apart. -/
  stamp : Nat
  /-- The name it was defined by, if any. -/
  name : Option Text
  params : List Text
  /-- The frames visible where it was made, innermost first. -/
  closure : List (List (Text × Value β))
  body : β
  /-- How it is shown. -/
  text : Text

/-- A value, with bodies of type `β` in its functions. -/
inductive Value (β : Type) where
  | number (value : Number)
  | string (value : Text)
  | color (value : Color)
  | sequence (items : List (Value β))
  | vector (value : Vector)
  | shape (value : Shape)
  | function (value : Function β)
  | builtin (value : Builtin)

end

variable {β : Type}

/-- A function takes exactly as many arguments as it has parameters. -/
def Function.arity (f : Function β) : Arity := .exactly f.params.length

namespace Value

/-! ### Views -/

/-- The number that a value is. -/
def number? : Value β → Option Number
  | number value => some value
  | _ => none

/-- The color that a value is, or that it spells as a string. -/
def color? : Value β → Option Color
  | color value => some value
  | string value => Color.named? value
  | _ => none

/-- The items of a sequence. -/
def sequence? : Value β → Option (List (Value β))
  | sequence items => some items
  | _ => none

/-- The shape that a value is. -/
def shape? : Value β → Option Shape
  | shape value => some value
  | _ => none

/-- The vector that a value is. -/
def vector? : Value β → Option Vector
  | vector value => some value
  | _ => none

/-! ### Equality -/

mutual

/-- Are two values equal? -/
def same : Value β → Value β → Bool
  | number n, number n' => n == n'
  | string s, string s' => s = s'
  | color c, color c' => c = c'
  | sequence vs, sequence vs' => sameItems vs vs'
  | vector v, vector v' => v.same v'
  | shape s, shape s' => s.same s'
  | function f, function f' => f.stamp = f'.stamp
  | builtin b, builtin b' => b = b'
  | _, _ => false

/-- Are two sequences equally long, with equal items? -/
def sameItems : List (Value β) → List (Value β) → Bool
  | [], [] => true
  | v :: vs, v' :: vs' => same v v' && sameItems vs vs'
  | _, _ => false

end

end Value

end DrawLang
