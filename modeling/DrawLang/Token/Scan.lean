/-
DrawLang/Token/Scan.lean

From pieces to tokens.  Walking along the pieces of a text, the offset grows by
the bytes of each piece and the line by its line feeds.  White space is passed
over, a token is placed, and a stray character or a string without end is
reported; what follows is scanned all the same.  The last item is always the
end of input.
-/
import DrawLang.Fault
import DrawLang.Token.Piece

namespace DrawLang

/-- What scanning yields: a token, or what was wanted in its place. -/
abbrev Scanned := Except Mismatch Token

namespace Piece

/-- What a piece yields that starts at an offset and ends at another, on a given line. -/
def scanned (p : Piece) (offset stop line : Nat) : List Scanned :=
  match p.kind with
  | .blank => []
  | .token kind => [.ok ⟨kind, p.text, offset, line⟩]
  | .stray => [.error ⟨offset, .construct [.token], p.text⟩]
  | .unclosed => [.error ⟨stop, .construct [.closeQuote], Construct.endOfInput.text⟩]

/-- The yield of pieces that start at an offset on a given line, and the end of input behind them. -/
def scan (offset line : Nat) : List Piece → List Scanned
  | [] => [.ok ⟨.endOfInput, [], offset, line⟩]
  | p :: ps =>
    let stop := offset + p.text.bytes
    let line := line + p.text.count '\n'
    p.scanned offset stop line ++ scan stop line ps

end Piece

namespace Text

/-- Everything that scanning a text yields. -/
def scan (t : Text) : List Scanned := Piece.scan 0 1 t.pieces

/-- The tokens of a text without the reports between them. -/
def tokens (t : Text) : List Token := t.scan.filterMap Except.toOption

/-- The tokens of a text, or the first report. -/
def tokens? (t : Text) : Except Mismatch (List Token) := t.scan.mapM id

end Text

end DrawLang
