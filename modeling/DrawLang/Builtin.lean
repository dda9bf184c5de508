/-
DrawLang/Builtin.lean

The built-in operations.  Each has a name, a list of parameters and an arity;
parameters beyond the least number of arguments are optional.  A built-in is
also a value, and is then shown by its signature.
-/
import DrawLang.Arity

namespace DrawLang

/-- The built-in operations. -/
inductive Builtin where
  | range | square | parallelogram | merge | vector | concat | repeat | slice | length
  | adaLovelace
  deriving DecidableEq, Repr

namespace Builtin

/-- All built-ins. -/
def all : List Builtin :=
  [range, square, parallelogram, merge, vector, concat, .repeat, slice, length, adaLovelace]

/-- The full name of a built-in. -/
def name : Builtin → Text
  | range => "range".toList
  | square => "square".toList
  | parallelogram => "parallelogram".toList
  | merge => "merge".toList
  | vector => "vector".toList
  | concat => "concat".toList
  | .repeat => "repeat".toList
  | slice => "slice".toList
  | length => "length".toList
  | adaLovelace => "ada-lovelace".toList

/-- The built-in of a full name. -/
def named? (t : Text) : Option Builtin := all.find? fun b => b.name = t

theorem named?_name (b : Builtin) : named? b.name = some b := by
  cases b <;> rfl

/-- The names of the parameters. -/
def params : Builtin → List Text
  | range => ["count".toList, "start".toList, "step".toList]
  | square => ["size".toList, "color".toList, "rotation".toList]
  | parallelogram =>
    ["base".toList, "height".toList, "offset".toList, "color".toList, "rotation".toList]
  | merge => ["shape1".toList, "shape2".toList, "anchor".toList, "rotation".toList]
  | vector => ["x".toList, "y".toList]
  | concat => ["values".toList]
  | .repeat => ["data".toList, "count".toList]
  | slice => ["data".toList, "start".toList, "end".toList]
  | length => ["data".toList]
  | adaLovelace => ["n".toList]

/-- The accepted numbers of arguments. -/
def arity (b : Builtin) : Arity :=
  match b with
  | concat => .atLeast 0
  | range | square | merge | slice => .between 2 b.params.length
  | parallelogram => .between 4 b.params.length
  | vector | .repeat | length | adaLovelace => .exactly b.params.length

/-- A parameter in a signature: `?` marks an optional one, `...` the only one
of an operation that takes any number of arguments. -/
def paramText (a : Arity) (index : Nat) (param : Text) : Text :=
  if a.most = none then param ++ "...".toList
  else if a.least ≤ index then param ++ ['?']
  else param

/-- The signature, such as `(x y) -> vector(x y)`. -/
def display (b : Builtin) : Text :=
  let params := [' '].intercalate (b.params.mapIdx (paramText b.arity))
  '(' :: params ++ ") -> ".toList ++ b.name ++ '(' :: params ++ [')']

end Builtin

end DrawLang
