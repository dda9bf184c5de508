/-
DrawLang/Token/Basic.lean

Tokens: the smallest units of a program that mean something.  A token keeps
the characters it was written with and the byte offset where they start; its
line is the one on which it ends.  A string, a number, a color and a built-in
carry what they stand for.
-/
import DrawLang.Builtin
import DrawLang.Color
import DrawLang.Json
import DrawLang.Text.Quoted

namespace DrawLang

/-- What a token is, with what it stands for. -/
inductive TokenKind where
  | openParen
  | closeParen
  | colon
  | arrow
  | define
  | identifier
  | color (value : Color)
  | builtin (value : Builtin)
  | string (value : Text)
  | number (value : Number)
  | endOfInput
  deriving DecidableEq

/-- A token and where it is. -/
structure Token where
  kind : TokenKind
  lexeme : Text
  /-- The byte offset of the first character of the lexeme. -/
  offset : Nat
  /-- One more than the number of line feeds up to the end of the lexeme. -/
  line : Nat
  deriving DecidableEq

namespace TokenKind

/-- The name of a kind of token. -/
def name : TokenKind → Text
  | openParen => "LEFT_PAREN".toList
  | closeParen => "RIGHT_PAREN".toList
  | colon => "COLON".toList
  | arrow => "ARROW".toList
  | define => "DEF".toList
  | identifier => "IDENTIFIER".toList
  | color _ => "COLOR".toList
  | builtin _ => "BUILTIN".toList
  | string _ => "STRING".toList
  | number _ => "NUMBER".toList
  | endOfInput => "EOF".toList

/-- What a token stands for, as text. -/
def literal : TokenKind → Text
  | color value => value.name
  | builtin value => value.name
  | string value => value
  | number value => value.literal
  | _ => "null".toList

/-- A kind in a JSON document: its name, or what it stands for under its name. -/
def json (k : TokenKind) : Json :=
  match k with
  | color value => .object [(k.name, .string value.name)]
  | builtin value => .object [(k.name, .string value.name)]
  | string value => .object [(k.name, .string value)]
  | number value =>
    .object [(k.name, match value.json? with | some digits => .number digits | none => .null)]
  | _ => .string k.name

end TokenKind

namespace Token

/-- The byte offset behind the last character of the lexeme. -/
def stop (t : Token) : Nat := t.offset + t.lexeme.bytes

/-- Kind, lexeme and literal of a token on one line. -/
def display (t : Token) : Text := t.kind.name ++ ' ' :: t.lexeme ++ ' ' :: t.kind.literal

/-- A token in a JSON document. -/
def json (t : Token) : Json :=
  .object [
    ("token_type".toList, t.kind.json),
    ("lexeme".toList, .string t.lexeme),
    ("offset".toList, .number (Decimal.row t.offset)),
    ("line".toList, .number (Decimal.row t.line))]

end Token

end DrawLang
