/-
DrawLang/Token/Piece.lean

Cutting a text into pieces.  `cut` takes one piece off the front of a text
that is not empty: a token, white space, a comment, a character that starts no
token, or a string that never closes.  `pieces` cuts until nothing is left.

A number is an optional sign glued to digits, with an optional fraction.  A
word starts with a letter or an underscore and goes on with letters, digits,
underscores and hyphens, but a hyphen before `>` belongs to the arrow.  Words
that name a color, a built-in or its short form, and `def`, are keywords; only
whole words are.  A comment runs from `;` up to the end of its line.

Main results: a piece and what follows it make up the text (`cut_append`), no
piece is empty (`cut_text_ne_nil`), hence the pieces tile the text
(`flatMap_pieces`).
-/
import DrawLang.Token.Basic

namespace DrawLang

/-- What a piece of a text is. -/
inductive PieceKind where
  | blank
  | token (kind : TokenKind)
  /-- A character that starts no token. -/
  | stray
  /-- A string without its closing quote. -/
  | unclosed
  deriving DecidableEq

/-- A piece of a text. -/
structure Piece where
  kind : PieceKind
  text : Text
  deriving DecidableEq

/-! ### Keywords -/

/-- The short forms of some built-ins. -/
def Builtin.alias? (t : Text) : Option Builtin :=
  if t = ['c'] then some .concat
  else if t = ['r'] then some .repeat
  else if t = ['s'] then some .slice
  else none

/-- The kind of a word: a keyword if it is one, and else an identifier. -/
def TokenKind.ofWord (w : Text) : TokenKind :=
  if w = "def".toList then .define
  else
    match Color.named? w with
    | some c => .color c
    | none =>
      match (Builtin.named? w).or (Builtin.alias? w) with
      | some b => .builtin b
      | none => .identifier

namespace Text

/-! ### Words -/

/-- Can a word start with this character? -/
def startsWord (c : Char) : Bool := c.isAlpha || c = '_'

/-- Does a word go on with this character before that rest? -/
def continuesWord (c : Char) (rest : Text) : Bool :=
  c.isAlphanum || c = '_' || (c = '-' && rest.head? ≠ some '>')

/-- Split off the part that belongs to a word. -/
def wordRest : Text → Text × Text
  | [] => ([], [])
  | c :: t => if continuesWord c t then (c :: (wordRest t).1, (wordRest t).2) else ([], c :: t)

theorem wordRest_append (t : Text) : (wordRest t).1 ++ (wordRest t).2 = t := by
  induction t with
  | nil => rfl
  | cons c t ih =>
    unfold wordRest
    split
    · simpa using ih
    · rfl

/-! ### Numbers -/

/-- Split off the digits at the front. -/
def digitsRest (t : Text) : Text × Text := (t.takeWhile Char.isDigit, t.dropWhile Char.isDigit)

theorem digitsRest_append (t : Text) : (digitsRest t).1 ++ (digitsRest t).2 = t :=
  List.takeWhile_append_dropWhile

/-- Split off a point with digits behind it. -/
def fractionRest : Text → Text × Text
  | '.' :: c :: t => if c.isDigit then ('.' :: c :: (digitsRest t).1, (digitsRest t).2)
    else ([], '.' :: c :: t)
  | t => ([], t)

theorem fractionRest_append (t : Text) : (fractionRest t).1 ++ (fractionRest t).2 = t := by
  unfold fractionRest
  split
  · split
    · simp [digitsRest_append]
    · rfl
  · rfl

/-- Split off digits and a fraction. -/
def numberRest (t : Text) : Text × Text :=
  let (digits, t) := digitsRest t
  let (fraction, t) := fractionRest t
  (digits ++ fraction, t)

theorem numberRest_append (t : Text) : (numberRest t).1 ++ (numberRest t).2 = t := by
  simp only [numberRest, List.append_assoc, fractionRest_append, digitsRest_append]

end Text

/-! ### One piece -/

namespace Piece

open Text

/-- The token of a number that is written like this. -/
def number (lexeme : Text) : Piece := ⟨.token (.number ((Number.ofText? lexeme).getD 0)), lexeme⟩

/-- The piece at the front of a text with first character `c`, and what follows it. -/
def cut (c : Char) (t : Text) : Piece × Text :=
  if c = '(' then (⟨.token .openParen, [c]⟩, t)
  else if c = ')' then (⟨.token .closeParen, [c]⟩, t)
  else if c = ':' then (⟨.token .colon, [c]⟩, t)
  else if c = '-' ∧ t.head? = some '>' then (⟨.token .arrow, c :: t.take 1⟩, t.drop 1)
  else if c.isDigit ∨ ((c = '-' ∨ c = '+') ∧ t.head?.any Char.isDigit) then
    (number (c :: (numberRest t).1), (numberRest t).2)
  else if c = ' ' ∨ c = '\r' ∨ c = '\t' ∨ c = '\n' then (⟨.blank, [c]⟩, t)
  else if c = ';' then (⟨.blank, c :: t.takeWhile (· ≠ '\n')⟩, t.dropWhile (· ≠ '\n'))
  else if c = '"' then
    match closing? t with
    | some (s, rest) => (⟨.token (.string s), c :: doubled s ++ ['"']⟩, rest)
    | none => (⟨.unclosed, c :: t⟩, [])
  else if startsWord c then
    let (w, rest) := wordRest t
    (⟨.token (.ofWord (c :: w)), c :: w⟩, rest)
  else (⟨.stray, [c]⟩, t)

theorem cut_append (c : Char) (t : Text) : (cut c t).1.text ++ (cut c t).2 = c :: t := by
  unfold cut
  split
  · rfl
  split
  · rfl
  split
  · rfl
  split
  · exact congrArg (c :: ·) (List.take_append_drop 1 t)
  split
  · simp [number, numberRest_append]
  split
  · rfl
  split
  · simp
  split
  · split
    · rename_i s rest h
      simp [eq_of_closing? h]
    · simp
  split
  · simp [wordRest_append]
  · rfl

theorem cut_text_ne_nil (c : Char) (t : Text) : (cut c t).1.text ≠ [] := by
  unfold cut number
  repeat' split
  all_goals simp

theorem length_cut_le (c : Char) (t : Text) : (cut c t).2.length ≤ t.length := by
  have h := congrArg List.length (cut_append c t)
  have h' := List.length_pos_iff.2 (cut_text_ne_nil c t)
  simp only [List.length_append, List.length_cons] at h
  omega

end Piece

/-! ### All pieces -/

/-- The pieces of a text, in order. -/
def Text.pieces : Text → List Piece
  | [] => []
  | c :: t => (Piece.cut c t).1 :: pieces (Piece.cut c t).2
termination_by t => t.length
decreasing_by
  have := Piece.length_cut_le c t
  simp only [List.length_cons]
  omega

@[simp] theorem Text.pieces_nil : pieces [] = [] := by
  simp [pieces]

theorem Text.pieces_cons (c : Char) (t : Text) :
    pieces (c :: t) = (Piece.cut c t).1 :: pieces (Piece.cut c t).2 := by
  rw [pieces]

/-- Nothing is lost between the pieces. -/
theorem Text.flatMap_pieces (t : Text) : (pieces t).flatMap Piece.text = t := by
  fun_induction pieces t with
  | case1 => rfl
  | case2 c t ih => rw [List.flatMap_cons, ih, Piece.cut_append]

end DrawLang
