/-
DrawLang/Proofs/Token/Layout.lean

Tokens that are laid out anew.  A layout is a run of white characters and comments, and
tokens are laid out by writing their lexemes with layouts around them, empty where a
token touches the one before it and not empty elsewhere (`LaidOut`).

Where two tokens touch, the lexeme of the first one ends in front of that of the second
one, whatever comes behind (`TokenKind.EndsBefore.append`); in front of a layout every
lexeme ends.  So laying out the tokens of a text yields a text with the same tokens
(`LaidOut.exists_tokens`), as far as reading looks at them: their kinds, their lexemes
and which opening parentheses touch what is in front of them (`Token.seen`).
-/
import Mathlib.Data.List.Chain
import DrawLang.Proofs.Token.Break
import DrawLang.Proofs.Token.Part

namespace DrawLang

open Text

/-! ### Layouts -/

/-- A run of white characters and of comments, each with the line feed behind it. -/
inductive Text.IsLayout : Text → Prop
  | nil : Text.IsLayout []
  | white {c : Char} {g : Text} (hc : IsWhite c) (hg : Text.IsLayout g) : Text.IsLayout (c :: g)
  | comment {s g : Text} (hs : '\n' ∉ s) (hg : Text.IsLayout g) :
    Text.IsLayout (';' :: s ++ '\n' :: g)

namespace Text.IsLayout

variable {g : Text}

theorem breaks (h : IsLayout g) : ∀ c ∈ g.head?, Breaks c := by
  cases h with
  | nil => exact nofun
  | white hc => exact fun _ hhead => Option.some.inj hhead ▸ hc.breaks
  | comment => exact fun _ hhead => Option.some.inj hhead ▸ (by decide)

/-- The pieces of a layout fit in front of anything and yield nothing. -/
theorem exists_pieces (h : IsLayout g) :
    ∃ gs, Piece.texts gs = g ∧ (∀ offset line, Piece.row offset line gs = []) ∧
      ∀ ps, Piece.Tiled ps → Piece.Tiled (gs ++ ps) := by
  induction h with
  | nil => exact ⟨[], rfl, fun _ _ => rfl, fun _ hps => hps⟩
  | @white c g hc _ ih =>
    obtain ⟨gs, rfl, hrow, htiled⟩ := ih
    exact ⟨⟨.blank, [c]⟩ :: gs, rfl, fun _ _ => hrow _ _, fun ps hps => ⟨.white hc, htiled ps hps⟩⟩
  | @comment s g hs _ ih =>
    obtain ⟨gs, rfl, hrow, htiled⟩ := ih
    -- the line feed is a piece of its own
    refine ⟨⟨.blank, ';' :: s⟩ :: ⟨.blank, ['\n']⟩ :: gs, rfl, fun _ _ => hrow _ _,
      fun ps hps => ?_⟩
    exact ⟨.comment hs fun c hc => (Option.some.inj hc).symm, .white (by decide), htiled ps hps⟩

end Text.IsLayout

/-! ### Tokens that touch -/

/-- No lexeme starts with a point. -/
theorem Spells.head?_ne_point {k : TokenKind} {s : Text} (h : Spells k s) : s.head? ≠ some '.' := by
  intro hhead
  rcases s with - | ⟨c, s⟩
  · cases hhead
  · obtain rfl := Option.some.inj hhead
    have hfits : Piece.Fits ⟨.token k, '.' :: s⟩ [] := Piece.fits_break nofun h
    have hcut := Piece.cut_of_fits hfits
    have hstray : Piece.cut '.' (s ++ []) = (⟨.stray, ['.']⟩, s ++ []) := rfl
    cases (Prod.mk.inj (hstray.symm.trans hcut)).1

/-- **What ends in front of a lexeme ends there whatever comes behind.** -/
theorem TokenKind.EndsBefore.append {k : TokenKind} {s w r : Text} (hw : w ≠ [])
    (hpoint : w.head? ≠ some '.') (h : k.EndsBefore s w) : k.EndsBefore s (w ++ r) := by
  rcases w with - | ⟨c, w⟩
  · exact absurd rfl hw
  cases k with
  | number =>
    refine ⟨h.1, fun _ d t ht => ?_⟩
    exact absurd (congrArg some (List.cons.inj ht).1) hpoint
  | string => exact h
  | identifier | define | color | builtin =>
    refine ⟨h.1, ?_⟩
    rintro d t ⟨⟩ hd
    refine h.2 c w rfl (continuesWord_of_inWord (inWord_of_continuesWord hd) ?_)
    rintro rfl hhead
    exact head?_of_continuesWord hd (head?_append_of_head? hhead)
  | openParen | closeParen | colon | arrow | endOfInput => trivial

/-- If the second token touches the first one, the lexeme of the first one ends there. -/
def Token.Adjoins (t u : Token) : Prop := u.offset = t.stop → t.kind.EndsBefore t.lexeme u.lexeme

theorem Text.bytes_eq_zero_iff {s : Text} : s.bytes = 0 ↔ s = [] := by
  rcases s with - | ⟨c, s⟩
  · exact ⟨fun _ => rfl, fun _ => rfl⟩
  · have hpos := c.utf8Size_pos
    exact ⟨fun h => absurd h (by rw [bytes_cons]; omega), nofun⟩

/-- The tokens of a row of pieces are spelled as their kinds are, and end where they touch. -/
theorem Piece.Tiled.spells_and_adjoin {ps : List Piece} {offset line : Nat} {ts : List Token}
    (htiled : Tiled ps) (hrow : row offset line ps = ts.map .ok) :
    (∀ t ∈ ts, Spells t.kind t.lexeme) ∧ ts.IsChain Token.Adjoins ∧
      ∀ t ∈ ts.head?, offset ≤ t.offset ∧ (t.offset = offset →
        ∃ rest, texts ps = t.lexeme ++ rest ∧ Fits ⟨.token t.kind, t.lexeme⟩ rest) := by
  induction ps generalizing offset line ts with
  | nil =>
    obtain rfl := List.map_eq_nil_iff.1 hrow.symm
    exact ⟨List.forall_mem_nil _, .nil, nofun⟩
  | cons p ps ih =>
    obtain ⟨hfits, htiled⟩ := htiled
    rcases row_cons_eq_map hrow with ⟨hkind, hrest⟩ | ⟨k, us, hkind, rfl, hrest⟩
    -- behind a blank piece no token starts where the piece does
    · obtain ⟨hspells, hchain, hhead⟩ := ih htiled hrest
      refine ⟨hspells, hchain, fun t ht => ?_⟩
      have hpos : p.text.bytes ≠ 0 := fun h0 => hfits.text_ne_nil (bytes_eq_zero_iff.1 h0)
      have hle := (hhead t ht).1
      exact ⟨by omega, fun heq => by omega⟩
    · obtain ⟨hspells, hchain, hhead⟩ := ih htiled hrest
      obtain ⟨kind, text⟩ := p
      obtain rfl : kind = .token k := hkind
      refine ⟨List.forall_mem_cons.2 ⟨?_, hspells⟩, List.isChain_cons.2 ⟨?_, hchain⟩, ?_⟩
      · cases hfits with
        | token hspells => exact hspells
      · intro u hu htouch
        obtain ⟨rest, htexts, hu⟩ := (hhead u hu).2 htouch
        rw [htexts] at hfits
        cases hfits with
        | token _ hends => exact hends.of_append hu.head?_of_hyphen
      · rintro t ⟨⟩
        exact ⟨Nat.le_refl _, fun _ => ⟨_, texts_cons _ _, hfits⟩⟩

/-! ### Tokens that are laid out anew -/

/-- A text with these lexemes in order and layouts around them: empty where a token starts at
the stop of the one before it, and not empty elsewhere. -/
inductive LaidOut : Option Nat → List Token → Text → Prop
  | done {stop : Option Nat} {g : Text} (hg : IsLayout g) : LaidOut stop [] g
  | token {stop : Option Nat} {g b : Text} {t : Token} {ts : List Token} (hg : IsLayout g)
    (hgap : ∀ n ∈ stop, g = [] ↔ t.offset = n) (h : LaidOut (some t.stop) ts b) :
    LaidOut stop (t :: ts) (g ++ (t.lexeme ++ b))

/-- What reading looks at: the kinds and lexemes of tokens, and which opening parentheses
touch what is in front of them. -/
def Token.seen : Option Nat → List Token → List (TokenKind × Text × Bool)
  | _, [] => []
  | stop, t :: ts =>
    (t.kind, t.lexeme, t.kind = .openParen ∧ stop = some t.offset) :: seen (some t.stop) ts

namespace LaidOut

variable {stop : Option Nat} {t : Token} {ts : List Token} {text : Text}

/-- A lexeme fits in front of the tokens that are laid out behind it. -/
theorem fits (h : LaidOut (some t.stop) ts text) (ht : Spells t.kind t.lexeme)
    (hspells : ∀ u ∈ ts, Spells u.kind u.lexeme) (hadjoins : ∀ u ∈ ts.head?, t.Adjoins u) :
    Piece.Fits ⟨.token t.kind, t.lexeme⟩ text := by
  cases h with
  | done hg => exact Piece.fits_break hg.breaks ht
  | @token _ g b u ts hg hgap _ =>
    rcases g with - | ⟨c, g⟩
    · have hu := hspells u List.mem_cons_self
      have htouch := (hgap t.stop rfl).1 rfl
      have hends := (hadjoins u rfl htouch).append (r := b) hu.ne_nil hu.head?_ne_point
      exact .token ht hends
    · exact Piece.fits_break hg.breaks ht

/-- The pieces of tokens that are laid out are a row of tokens that are seen the same. -/
theorem exists_row (h : LaidOut stop ts text) (hspells : ∀ t ∈ ts, Spells t.kind t.lexeme)
    (hchain : ts.IsChain Token.Adjoins) (offset line : Nat) :
    ∃ ps us, Piece.texts ps = text ∧ Piece.Tiled ps ∧
      Piece.row offset line ps = us.map .ok ∧
        Token.seen (stop.map fun _ => offset) us = Token.seen stop ts := by
  induction h generalizing offset line with
  | done hg =>
    obtain ⟨gs, htexts, hrow, htiled⟩ := hg.exists_pieces
    refine ⟨gs, [], htexts, ?_, hrow offset line, rfl⟩
    rw [← List.append_nil gs]
    exact htiled [] trivial
  | @token stop g b t ts hg hgap h ih =>
    obtain ⟨ht, hspells⟩ := List.forall_mem_cons.1 hspells
    obtain ⟨hadjoins, hchain⟩ := List.isChain_cons.1 hchain
    obtain ⟨gs, rfl, hrow, htiled⟩ := hg.exists_pieces
    obtain ⟨ps, us, rfl, htiled', hrow', hseen⟩ := ih hspells hchain
      (offset + (Piece.texts gs).bytes + t.lexeme.bytes)
      (line + (Piece.texts gs).count '\n' + t.lexeme.count '\n')
    have hfits := h.fits ht hspells hadjoins
    let u : Token := ⟨t.kind, t.lexeme, offset + (Piece.texts gs).bytes,
      line + (Piece.texts gs).count '\n' + t.lexeme.count '\n'⟩
    refine ⟨gs ++ ⟨.token t.kind, t.lexeme⟩ :: ps, u :: us, ?_, htiled _ ⟨hfits, htiled'⟩, ?_, ?_⟩
    · rw [Piece.texts_append, Piece.texts_cons]
    · rw [Piece.row_append, hrow, List.nil_append, Piece.row, hrow']
      rfl
    · have hsame : (stop.map fun _ => offset) = some u.offset ↔ stop = some t.offset := by
        rcases stop with - | n
        · simp
        · have hempty : u.offset = offset ↔ Piece.texts gs = [] := by
            rw [← bytes_eq_zero_iff]
            exact Nat.add_eq_left
          rw [Option.map_some, Option.some_inj, Option.some_inj, eq_comm, hempty, hgap n rfl,
            eq_comm]
      have hflag : decide (u.kind = .openParen ∧ (stop.map fun _ => offset) = some u.offset) =
          decide (t.kind = .openParen ∧ stop = some t.offset) :=
        decide_eq_decide.2 (and_congr_right fun _ => hsame)
      rw [Token.seen, Token.seen, hflag, ← hseen]
      rfl

end LaidOut

/-- **Tokens that are laid out anew are seen as they were.** -/
theorem LaidOut.exists_tokens {source text : Text} {ts : List Token} {last : Token}
    (h : source.tokens? = .ok (ts ++ [last])) (htext : LaidOut none ts text) :
    ∃ us last', text.tokens? = .ok (us ++ [last']) ∧ Token.seen none us = Token.seen none ts := by
  obtain ⟨_, _, hts, hrow, -⟩ := exists_row_of_tokens? h
  obtain ⟨rfl, -⟩ := List.append_inj' hts rfl
  obtain ⟨hspells, hchain, -⟩ := (tiled_pieces source).spells_and_adjoin hrow
  obtain ⟨ps, us, htexts, htiled, hrow', hseen⟩ := htext.exists_row hspells hchain 0 1
  rw [← pieces_eq_iff.2 ⟨htexts, htiled⟩] at hrow'
  obtain ⟨last', htokens, -⟩ := tokens?_of_row hrow'
  exact ⟨us, last', htokens, hseen⟩

end DrawLang
