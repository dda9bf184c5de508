/-
DrawLang/Json.lean

JSON documents and their two layouts.  Numbers are carried as the text they
are written with, and the fields of an object keep their order.

In strings the quote, the backslash and the control characters below U+0020
are escaped, the latter by their short names where they have one; everything
else stands for itself.
-/
import DrawLang.Text.Basic

namespace DrawLang

/-- A JSON document. -/
inductive Json where
  | null
  | number (digits : Text)
  | string (value : Text)
  | array (items : List Json)
  | object (fields : List (Text × Json))

namespace Json

/-- The lower-case hexadecimal digit of a number below sixteen. -/
def hexDigit (n : Nat) : Char := if n < 10 then Char.ofNat (48 + n) else Char.ofNat (87 + n)

/-- How a character is written inside a string. -/
def escaped (c : Char) : Text :=
  if c = '"' then "\\\"".toList
  else if c = '\\' then "\\\\".toList
  else if c = '\x08' then "\\b".toList
  else if c = '\t' then "\\t".toList
  else if c = '\n' then "\\n".toList
  else if c = '\x0c' then "\\f".toList
  else if c = '\r' then "\\r".toList
  else if c.toNat < 32 then "\\u00".toList ++ [hexDigit (c.toNat / 16), hexDigit (c.toNat % 16)]
  else [c]

/-- A string with its quotes. -/
def stringText (s : Text) : Text := '"' :: s.flatMap escaped ++ ['"']

/-! ### Without spaces -/

mutual

/-- The document on one line without any space between its parts. -/
def compact : Json → Text
  | null => "null".toList
  | number digits => digits
  | string value => stringText value
  | array items => '[' :: compactItems items ++ [']']
  | object fields => '\x7b' :: compactFields fields ++ ['\x7d']

/-- The items of an array, with commas between them. -/
def compactItems : List Json → Text
  | [] => []
  | [item] => compact item
  | item :: items => compact item ++ ',' :: compactItems items

/-- The fields of an object, with commas between them. -/
def compactFields : List (Text × Json) → Text
  | [] => []
  | [(name, value)] => stringText name ++ ':' :: compact value
  | (name, value) :: fields =>
    stringText name ++ ':' :: compact value ++ ',' :: compactFields fields

end

/-! ### One part a line -/

/-- A new line, indented by two spaces a level. -/
def newLine (level : Nat) : Text := '\n' :: List.replicate (2 * level) ' '

mutual

/-- The document with each item and each field on a line of its own; an empty
array or object stays on its line. -/
def indented (level : Nat) : Json → Text
  | null => "null".toList
  | number digits => digits
  | string value => stringText value
  | array [] => "[]".toList
  | array items => '[' :: newLine (level + 1) ++ indentedItems level items ++ newLine level ++ [']']
  | object [] => ['\x7b', '\x7d']
  | object fields =>
    '\x7b' :: newLine (level + 1) ++ indentedFields level fields ++ newLine level ++ ['\x7d']

/-- The items of an array, each but the last followed by a comma and a new line. -/
def indentedItems (level : Nat) : List Json → Text
  | [] => []
  | [item] => indented (level + 1) item
  | item :: items =>
    indented (level + 1) item ++ ',' :: newLine (level + 1) ++ indentedItems level items

/-- The fields of an object, each but the last followed by a comma and a new line. -/
def indentedFields (level : Nat) : List (Text × Json) → Text
  | [] => []
  | [(name, value)] => stringText name ++ ": ".toList ++ indented (level + 1) value
  | (name, value) :: fields =>
    stringText name ++ ": ".toList ++ indented (level + 1) value ++
      ',' :: newLine (level + 1) ++ indentedFields level fields

end

/-- The document over several lines. -/
def pretty (j : Json) : Text := j.indented 0

end Json

end DrawLang
