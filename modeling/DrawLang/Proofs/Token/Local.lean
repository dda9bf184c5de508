/-
DrawLang/Proofs/Token/Local.lean

Cutting a text off between two pieces.  Where a piece ends is told by its own
characters and by at most two behind it, and the end of the text tells the same
as they do.  Only a word asks for a second character: a hyphen goes on with it
unless it begins an arrow.  As an arrow is one piece, a text that is cut off
between two pieces has the same pieces up to there, unless a string is left
open (`Text.pieces_texts`).
-/
import DrawLang.Proofs.Token.Fits

namespace DrawLang

open Text

/-! ### What follows, cut off -/

section

variable {s r u : Text}

theorem Text.head?_append_of_head? {c : Char} (h : r.head? = some c) : (r ++ u).head? = some c := by
  rw [List.head?_append, h, Option.some_or]

theorem Text.EndsNumber.of_append (h : EndsNumber s (r ++ u)) : EndsNumber s r := by
  constructor
  · intro c hc
    exact h.1 c (head?_append_of_head? hc)
  · rintro hpoint c t rfl
    exact h.2 hpoint c (t ++ u) rfl

/-- A word ends where it did, unless an arrow is cut in two. -/
theorem Text.EndsWord.of_append (hcut : r = ['-'] → u.head? ≠ some '>') (h : EndsWord s (r ++ u)) :
    EndsWord s r := by
  refine ⟨fun hlast hhead => h.1 hlast (head?_append_of_head? hhead), ?_⟩
  rintro c t rfl hc
  refine h.2 c (t ++ u) rfl (continuesWord_of_inWord (inWord_of_continuesWord hc) ?_)
  rintro rfl
  rcases t with - | ⟨d, t⟩
  · exact hcut rfl
  · exact head?_of_continuesWord hc

theorem TokenKind.EndsBefore.of_append {k : TokenKind} (hcut : r = ['-'] → u.head? ≠ some '>')
    (h : k.EndsBefore s (r ++ u)) : k.EndsBefore s r := by
  cases k with
  | number => exact Text.EndsNumber.of_append h
  | string => exact fun hhead => h (head?_append_of_head? hhead)
  | identifier | define | color | builtin => exact Text.EndsWord.of_append hcut h
  | openParen | closeParen | colon | arrow | endOfInput => trivial

theorem Text.StartsNothing.of_append {c : Char} (h : StartsNothing c (r ++ u)) : StartsNothing c r := by
  refine { h with arrow := fun hc hhead => ?_, number := fun hc hhead => ?_ }
  · exact h.arrow hc (head?_append_of_head? hhead)
  · rcases r with - | ⟨d, r⟩
    · cases hhead
    · exact h.number hc hhead

/-- **A piece fits in front of less** than in front of what there was, if no arrow is cut in two. -/
theorem Piece.Fits.of_append {p : Piece} (hp : p.kind ≠ .unclosed)
    (hcut : r = ['-'] → u.head? ≠ some '>') (h : p.Fits (r ++ u)) : p.Fits r := by
  generalize hrest : r ++ u = rest at h
  cases h with
  | white hc => exact .white hc
  | comment hs hfeed =>
    subst hrest
    exact .comment hs fun c hc => hfeed c (head?_append_of_head? hc)
  | token hspells hends =>
    subst hrest
    exact .token hspells (hends.of_append hcut)
  | stray hstarts =>
    subst hrest
    exact .stray hstarts.of_append
  | unclosed => exact absurd rfl hp

end

/-! ### Rows of pieces, cut off -/

namespace Piece

/-- A hyphen that is a piece is not in front of `>`, as the two are one piece. -/
theorem Fits.head?_of_hyphen {p : Piece} {rest : Text} (h : p.Fits rest) (hp : p.text = ['-']) :
    rest.head? ≠ some '>' := by
  rintro hhead
  rcases rest with - | ⟨c, rest⟩
  · cases hhead
  · obtain rfl := Option.some.inj hhead
    have hcut : Piece.cut '-' ('>' :: rest) = (p, '>' :: rest) :=
      cut_eq_iff.2 ⟨by rw [hp]; rfl, h⟩
    have harrow : Piece.cut '-' ('>' :: rest) = (⟨.token .arrow, ['-', '>']⟩, rest) := rfl
    obtain rfl := (Prod.mk.inj (harrow.symm.trans hcut)).1
    cases hp

theorem Tiled.behind {as bs : List Piece} (h : Tiled (as ++ bs)) : Tiled bs := by
  induction as with
  | nil => exact h
  | cons p as ih => exact ih h.2

/-- The first pieces of a row fit by themselves, unless a string is left open. -/
theorem Tiled.of_append {as bs : List Piece} (h : Tiled (as ++ bs))
    (has : ∀ p ∈ as, p.kind ≠ .unclosed) : Tiled as := by
  induction as with
  | nil => trivial
  | cons p as ih =>
    obtain ⟨hp, has⟩ := List.forall_mem_cons.1 has
    obtain ⟨hfits, hrest⟩ := h
    have htexts : texts (List.append as bs) = texts as ++ texts bs := texts_append as bs
    rw [htexts] at hfits
    refine ⟨hfits.of_append hp fun hhyphen => ?_, ih hrest has⟩
    rcases as with - | ⟨q, as⟩
    · cases hhyphen
    -- a hyphen that is left over is the next piece
    · obtain ⟨hq, -⟩ := hrest
      rw [texts_cons, List.append_eq_singleton_iff] at hhyphen
      rcases hhyphen with ⟨hnil, -⟩ | ⟨hhyphen, hnil⟩
      · exact absurd hnil hq.text_ne_nil
      · have hbehind : texts (List.append as bs) = texts bs := by
          show texts (as ++ bs) = _
          rw [texts_append, hnil, List.nil_append]
        exact (hbehind ▸ hq).head?_of_hyphen hhyphen

end Piece

namespace Text

/-- **A text that is cut off between two pieces has the same pieces up to there.** -/
theorem pieces_texts {as bs : List Piece} {t : Text} (h : t.pieces = as ++ bs)
    (has : ∀ p ∈ as, p.kind ≠ .unclosed) : (Piece.texts as).pieces = as := by
  have htiled := (pieces_eq_iff.1 h).2
  exact pieces_eq_iff.2 ⟨rfl, htiled.of_append has⟩

/-- What follows the first pieces of a text has the pieces that follow them. -/
theorem pieces_texts_behind {as bs : List Piece} {t : Text} (h : t.pieces = as ++ bs) :
    (Piece.texts bs).pieces = bs := by
  have htiled := (pieces_eq_iff.1 h).2
  exact pieces_eq_iff.2 ⟨rfl, htiled.behind⟩

end Text

end DrawLang
