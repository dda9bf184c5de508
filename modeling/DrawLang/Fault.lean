/-
DrawLang/Fault.lean

What can go wrong in a program, and where.  A fault says what was wanted and
what was there instead, and its place in the program text; its message is made
from these in one place.  Besides faults there are crashes: they are no
mistakes of a program but of the host that drives the machine, and they end
its run.

A fault can only be placed at an offset that has a position, so asking for one
inside a character gives none (`Fault.at?`).
-/
import DrawLang.Arity
import DrawLang.Json
import DrawLang.Text.Position

namespace DrawLang

/-! ### Faults -/

/-- Which rule a program broke. -/
inductive FaultKind where
  | number | color | identifier | data | call | arity | alreadyDefined | interruption | parse
  | shape | vector | depth
  deriving DecidableEq, Repr

/-- The name of a kind of fault. -/
def FaultKind.name : FaultKind → Text
  | number => "Number".toList
  | color => "Color".toList
  | identifier => "Identifier".toList
  | data => "Data".toList
  | call => "Call".toList
  | arity => "Arity".toList
  | alreadyDefined => "AlreadyDefined".toList
  | interruption => "Interruption".toList
  | parse => "Parse".toList
  | shape => "Shape".toList
  | vector => "Vector".toList
  | depth => "Depth".toList

/-- The constructs that a message about the form of a program can name. -/
inductive Construct where
  | definition | expression | identifier | closeParen | endOfInput | token | closeQuote
  deriving DecidableEq, Repr

/-- How a message names a construct. -/
def Construct.text : Construct → Text
  | definition => "def".toList
  | expression => "expression".toList
  | identifier => "identifier".toList
  | closeParen => "')'".toList
  | endOfInput => "end of input".toList
  | token => "token".toList
  | closeQuote => "'\"'".toList

/-- What was wanted where a program went wrong. -/
inductive Wanted where
  | number
  | integer
  | count
  /-- A count whose results can still be computed. -/
  | smallerCount
  | color
  /-- A name that is bound. -/
  | boundName
  /-- A name that is bound nowhere. -/
  | freeName
  /-- A name that is not bound in this scope yet. -/
  | newName
  | data
  /-- A position in a sequence of the given length. -/
  | index (length : Nat)
  | callable
  /-- A number of arguments, told as text. -/
  | arguments (told : Text)
  | completion
  | shape
  | vector
  /-- No more than the given number of levels. -/
  | levels (kind : FaultKind) (limit : Nat)
  /-- One of several constructs of the grammar. -/
  | construct (alternatives : List Construct)
  | other (kind : FaultKind) (text : Text)
  deriving DecidableEq, Repr

namespace Wanted

/-- The rule that is broken where this is missing. -/
def kind : Wanted → FaultKind
  | number | integer | count | smallerCount => .number
  | color => .color
  | boundName | freeName => .identifier
  | newName => .alreadyDefined
  | data | index _ => .data
  | callable => .call
  | arguments _ => .arity
  | completion => .interruption
  | shape => .shape
  | vector => .vector
  | levels kind _ => kind
  | construct _ => .parse
  | other kind _ => kind

/-- Several alternatives in one phrase. -/
def either (alternatives : List Text) : Text := " or ".toList.intercalate alternatives

/-- How a message tells it. -/
def text : Wanted → Text
  | number => "number".toList
  | integer => "integer".toList
  | count => "non-negative integer".toList
  | smallerCount => "smaller count".toList
  | color => "color".toList
  | boundName => "identifier".toList
  | freeName => "unbound identifier".toList
  | newName => "new identifier".toList
  | data => "data".toList
  | index length => "index between 1 and ".toList ++ Decimal.row length
  | callable => "function or data".toList
  | arguments told => told ++ " argument(s)".toList
  | completion => "completion".toList
  | shape => "shape".toList
  | vector => "vector".toList
  | levels _ limit => "at most ".toList ++ Decimal.row limit ++ " nested levels".toList
  | construct alternatives => either (alternatives.map Construct.text)
  | other _ text => text

end Wanted

/-- A mistake in a program: what was wanted, what was there, and where. -/
structure Fault where
  wanted : Wanted
  got : Text
  line : Nat
  column : Nat
  deriving DecidableEq, Repr

namespace Fault

/-- The fault at an offset of a text, if that is not inside a character.
Where it is not said what was there, it is the character at the offset. -/
def at? (source : Text) (offset : Nat) (wanted : Wanted) (got : Option Text) : Option Fault :=
  (source.position? offset).map fun p => ⟨wanted, got.getD p.last, p.line, p.column⟩

/-- The rule that is broken. -/
def kind (f : Fault) : FaultKind := f.wanted.kind

/-- What was wanted and what was there. -/
def message (f : Fault) : Text :=
  "expected ".toList ++ f.wanted.text ++ ", got ".toList ++ f.got

/-- The line that reports a fault. -/
def display (f : Fault) : Text :=
  "[line ".toList ++ Decimal.row f.line ++ ", col ".toList ++ Decimal.row f.column ++
    "] Error: ".toList ++ f.message

/-- A fault in a JSON document. -/
def json (f : Fault) : Json :=
  .object [
    ("kind".toList, .string f.kind.name),
    ("line".toList, .number (Decimal.row f.line)),
    ("col".toList, .number (Decimal.row f.column)),
    ("message".toList, .string f.message)]

end Fault

/-- A fault that is not placed in a text yet: only the offset is known. -/
structure Mismatch where
  offset : Nat
  wanted : Wanted
  got : Text
  deriving DecidableEq, Repr

/-! ### Crashes -/

/-- A mistake of the host that drives the machine. -/
inductive Crash where
  /-- A place inside a character was to be reported. -/
  | splitCharacter
  /-- More frames were to be removed than there are above the global one. -/
  | emptyStack (count depth : Nat)
  /-- A table has no entry for the number that was asked for. -/
  | shortTable
  /-- A remainder or a size is outside the range of signed 128-bit words. -/
  | overflow
  deriving DecidableEq, Repr

/-- The report of a crash, where it has one of its own. -/
def Crash.message? : Crash → Option Text
  | emptyStack count depth =>
    some ("internal error: empty stack (popping ".toList ++ Decimal.row count ++ " of ".toList ++
      Decimal.row depth ++ " frame(s))".toList)
  | _ => none

/-- Why a run ended without a value. -/
inductive Stop where
  | fault (f : Fault)
  | crash (c : Crash)
  deriving DecidableEq, Repr

/-- The stop for a fault at an offset. -/
def Stop.at (source : Text) (offset : Nat) (wanted : Wanted) (got : Option Text) : Stop :=
  match Fault.at? source offset wanted got with
  | some f => .fault f
  | none => .crash .splitCharacter

/-- The stop for a mismatch, placed in its text. -/
def Mismatch.stop (source : Text) (m : Mismatch) : Stop := .at source m.offset m.wanted m.got

end DrawLang
