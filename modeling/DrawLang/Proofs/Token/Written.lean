/-
DrawLang/Proofs/Token/Written.lean

Scanning undoes writing.  Lexemes of any kinds are written one after another with a
space or a line feed between them.  Each of them fits in front of its gap and the last
one at the end, so they are the pieces of the text (`Lexeme.pieces_written`), whatever
they are: a word that ends with a hyphen, a number with a sign, or a string with
quotes, line feeds and semicolons inside.  The last one fits in front of a break as
well, so they can stand at the start of a longer text (`Lexeme.tiled_append`).

Main statement: `scanning_undoes_writing`.
-/
import DrawLang.Proofs.Token.Break
import DrawLang.Tree.Printed
import DrawLang.Value.Shown

namespace DrawLang

open Text

/-- A lexeme with what it stands for. -/
structure Lexeme where
  kind : TokenKind
  text : Text
  spells : Spells kind text

/-- What stands between two lexemes. -/
inductive Gap where
  | space
  | feed
  deriving DecidableEq

namespace Gap

/-- The character of a gap. -/
def char : Gap → Char
  | space => ' '
  | feed => '\n'

theorem isWhite_char (g : Gap) : IsWhite g.char := by
  cases g <;> decide

end Gap

namespace Lexeme

/-- Lexemes written one after another, each with the gap behind it but the last one. -/
def written : List (Lexeme × Gap) → Text
  | [] => []
  | [(l, _)] => l.text
  | (l, g) :: ls => l.text ++ g.char :: written ls

/-- The piece that a lexeme is. -/
def piece (l : Lexeme) : Piece := ⟨.token l.kind, l.text⟩

/-- The pieces of lexemes that are written. -/
def pieces : List (Lexeme × Gap) → List Piece
  | [] => []
  | [(l, _)] => [l.piece]
  | (l, g) :: ls => l.piece :: ⟨.blank, [g.char]⟩ :: pieces ls

theorem texts_pieces (ls : List (Lexeme × Gap)) : Piece.texts (pieces ls) = written ls := by
  fun_induction written ls with
  | case1 => rfl
  | case2 l g => exact List.append_nil l.text
  | case3 l g ls hne ih =>
    rw [pieces, Piece.texts_cons, Piece.texts_cons, ih]
    · rfl
    · exact hne

/-- Lexemes that are written fit at the end of input and in front of a break. -/
theorem tiled_append (ls : List (Lexeme × Gap)) {ps : List Piece} (hps : Piece.Tiled ps)
    (hbreak : ∀ c ∈ (Piece.texts ps).head?, Breaks c) : Piece.Tiled (pieces ls ++ ps) := by
  fun_induction pieces ls with
  | case1 => exact hps
  | case2 l g => exact ⟨Piece.fits_break hbreak l.spells, hps⟩
  | case3 l g ls hne ih =>
    refine ⟨Piece.fits_break ?_ l.spells, .white g.isWhite_char, ih⟩
    rintro c ⟨⟩
    exact g.isWhite_char.breaks

theorem tiled_pieces (ls : List (Lexeme × Gap)) : Piece.Tiled (pieces ls) := by
  have htiled := @tiled_append ls [] trivial fun c hc => by cases hc
  rwa [List.append_nil] at htiled

/-- **The pieces of what is written** are the lexemes and the gaps. -/
theorem pieces_written (ls : List (Lexeme × Gap)) : (written ls).pieces = pieces ls :=
  pieces_eq_iff.2 ⟨texts_pieces ls, tiled_pieces ls⟩

/-- The row of lexemes that are written is one of tokens. -/
theorem exists_row (ls : List (Lexeme × Gap)) (offset line : Nat) :
    ∃ us : List Token, Piece.row offset line (pieces ls) = us.map .ok ∧
      us.map Token.kind = ls.map (·.1.kind) ∧ us.map Token.lexeme = ls.map (·.1.text) := by
  fun_induction pieces ls generalizing offset line with
  | case1 => exact ⟨[], rfl, rfl, rfl⟩
  | case2 l g => exact ⟨[_], rfl, rfl, rfl⟩
  | case3 l g ls hne ih =>
    obtain ⟨us, hrow, hkind, htext⟩ := ih _ _
    refine ⟨⟨l.kind, l.text, offset, line + l.text.count '\n'⟩ :: us, ?_, ?_, ?_⟩
    · rw [Piece.row, Piece.row, hrow]
      rfl
    · rw [List.map_cons, List.map_cons, hkind]
    · rw [List.map_cons, List.map_cons, htext]

/-- Texts that are written as one kind are lexemes of that kind. -/
theorem exists_of_spells {k : TokenKind} {ws : List Text} (h : ∀ w ∈ ws, Spells k w) :
    ∃ ls : List Lexeme, ls.map text = ws ∧ ∀ l ∈ ls, l.kind = k := by
  induction ws with
  | nil => exact ⟨[], rfl, List.forall_mem_nil _⟩
  | cons w ws ih =>
    obtain ⟨hw, hws⟩ := List.forall_mem_cons.1 h
    obtain ⟨ls, htext, hkind⟩ := ih hws
    exact ⟨⟨k, w, hw⟩ :: ls, congrArg (w :: ·) htext, List.forall_mem_cons.2 ⟨rfl, hkind⟩⟩

/-- Lexemes with spaces between them. -/
theorem written_spaces (ls : List Lexeme) :
    written (ls.map fun l => (l, .space)) = [' '].intercalate (ls.map text) := by
  induction ls with
  | nil => rfl
  | cons l ls ih =>
    rcases ls with - | ⟨l', ls⟩
    · exact (List.append_nil l.text).symm
    · rw [List.map_cons] at ih
      rw [List.map_cons, List.map_cons, written, ih]
      · simp [List.intercalate, Gap.char]
      · exact List.cons_ne_nil _ _

/-- What there is to read in an item: kind and lexeme of a token. -/
def read : Scanned → Except Mismatch (TokenKind × Text) := Except.map fun t => (t.kind, t.lexeme)

theorem read_scan (ls : List (Lexeme × Gap)) (offset line : Nat) :
    (Piece.scan offset line (pieces ls)).map read =
      ls.map (fun l => .ok (l.1.kind, l.1.text)) ++ [.ok (.endOfInput, [])] := by
  fun_induction pieces ls generalizing offset line with
  | case1 => rfl
  | case2 l g => rfl
  | case3 l g ls hne ih =>
    rw [Piece.scan, Piece.scan, List.map_append, List.map_append, ih]
    rfl

end Lexeme

/-- **Scanning undoes writing.**  Lexemes with spaces or line feeds between them are scanned
to what they stand for, without a report and with the end of input behind them.  A
lexeme can be the name of a color, the name of a built-in or its short form, any
number and any string in quotes, as printed trees and shown sequences have it. -/
theorem scanning_undoes_writing (ls : List (Lexeme × Gap)) :
    (Lexeme.written ls).scan.map Lexeme.read =
      ls.map (fun l => .ok (l.1.kind, l.1.text)) ++ [.ok (.endOfInput, [])] ∧
    (∀ c : Color, Spells (.color c) c.name) ∧
    (∀ b : Builtin, Spells (.builtin b) b.name) ∧
    (∀ w b, Builtin.alias? w = some b → Spells (.builtin b) w) ∧
    (∀ s, IsNumber s → ∃ n, Number.ofText? s = some n ∧ Spells (.number n) s) ∧
    (∀ (β : Type) v, Spells (.string v) (Atom.string v).printed ∧
      Spells (.string v) (Value.string v : Value β).displayItem) := by
  refine ⟨?_, fun c => .keyword c.keyword, fun b => .keyword b.keyword,
    fun w b h => .keyword (Builtin.keyword_of_alias h), fun s hs => ?_,
    fun β v => ⟨.string v, .string v⟩⟩
  · rw [scan, Lexeme.pieces_written]
    exact Lexeme.read_scan ls 0 1
  · obtain ⟨n, hn⟩ := Option.isSome_iff_exists.1 (Number.isSome_ofText? hs)
    exact ⟨n, hn, .number hs hn⟩

/-- A name that ends with a hyphen, an arrow, a string with a quote, a line feed and a semicolon
inside, and a number with a sign. -/
theorem scanning_undoes_writing_hyphen :
    IsNumber "-2.5".toList ∧ ∃ n,
      (scan "a- ->\n\"\"\"\n;\" -2.5".toList).map Lexeme.read =
        [.ok (.identifier, "a-".toList), .ok (.arrow, "->".toList),
          .ok (.string "\"\n;".toList, "\"\"\"\n;\"".toList), .ok (.number n, "-2.5".toList),
          .ok (.endOfInput, [])] := by
  have hnumber : IsNumber "-2.5".toList :=
    ⟨['-'], ['2'], ['.', '5'], rfl, .inr (.inr rfl),
      ⟨List.cons_ne_nil _ _, List.forall_mem_singleton.2 rfl⟩,
      .inr ⟨['5'], rfl, List.cons_ne_nil _ _, List.forall_mem_singleton.2 rfl⟩⟩
  have hname : Spells (.ofWord "a-".toList) "a-".toList :=
    TokenKind.spells_ofWord (by decide +kernel)
  obtain ⟨-, -, -, -, hnumbers, -⟩ := scanning_undoes_writing []
  obtain ⟨n, -, hn⟩ := hnumbers _ hnumber
  obtain ⟨hscan, -⟩ := scanning_undoes_writing
    [(⟨_, _, hname⟩, .space), (⟨.arrow, _, .arrow⟩, .feed),
      (⟨.string "\"\n;".toList, _, .string _⟩, .space), (⟨.number n, _, hn⟩, .space)]
  exact ⟨hnumber, n, hscan⟩

end DrawLang
