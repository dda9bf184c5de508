/-
DrawLang/Value/Shown.lean

How values are shown.  On its own a string is shown as it is; inside a
sequence it is quoted.  Functions are shown by the text they carry, built-ins
by their signature.  In a JSON document both are objects with their name and
that text.
-/
import DrawLang.Text.Quoted
import DrawLang.Value.Basic

namespace DrawLang.Value

variable {β : Type}

mutual

/-- A value as an item of a sequence. -/
def displayItem : Value β → Text
  | number value => value.display
  | string value => Text.quoted value
  | color value => value.name
  | sequence items => '[' :: displayItems items ++ [']']
  | vector value => value.display
  | shape value => value.display
  | function value => value.text
  | builtin value => value.display

/-- Items with a space between them. -/
def displayItems : List (Value β) → Text
  | [] => []
  | [v] => displayItem v
  | v :: vs => displayItem v ++ ' ' :: displayItems vs

end

/-- A value on its own. -/
def display : Value β → Text
  | string value => value
  | v => v.displayItem

mutual

/-- A value in a JSON document. -/
def json : Value β → Json
  | number value => .ofNumber value
  | string value => .string value
  | color value => .string value.name
  | sequence items => .array (jsonItems items)
  | vector value => value.json
  | shape value => value.json
  | function value =>
    .object [("name".toList, .string "function".toList), ("source".toList, .string value.text)]
  | builtin value =>
    .object [("name".toList, .string value.name), ("source".toList, .string value.display)]

/-- The items of a sequence in a JSON document. -/
def jsonItems : List (Value β) → List Json
  | [] => []
  | v :: vs => json v :: jsonItems vs

end

/-- The name of the type of a value. -/
def typeName : Value β → Text
  | number _ => "number".toList
  | string _ => "string".toList
  | color _ => "color".toList
  | sequence _ => "sequence".toList
  | vector _ => "vector".toList
  | shape _ => "shape".toList
  | function _ => "function".toList
  | builtin _ => "builtin".toList

end DrawLang.Value
