/-
DrawLang/Proofs/Token/Tiling.lean

Scanning tiles a text.  A tile is one of the pieces of a text with the pieces
before it and behind it.  Each character lies under exactly one tile
(`Text.exists_unique_tile`); each tile is a token, a white character, a comment up
to the end of its line, a character that is reported as unexpected, or the tail
that an unterminated string opens (`Tile.role`); and what scanning yields before
the end of input is the yield of a tile (`Tile.exists_of_token`,
`Tile.exists_of_error`).

Tokens come in order and do not overlap (`Text.pairwise_tokens`).  Each one is the
longest lexeme of its class at its offset (`Text.longest_of_mem_tokens`), and it is a
keyword exactly if its lexeme is in the table.
-/
import DrawLang.Proofs.Token.Local
import DrawLang.Proofs.Token.Longest
import DrawLang.Proofs.Token.Marked
import DrawLang.Proofs.Token.Scanner

namespace DrawLang

open Text

/-- A piece of a text, with the pieces before it and behind it. -/
@[ext] structure Tile (source : Text) where
  before : List Piece
  piece : Piece
  after : List Piece
  split : source.pieces = before ++ piece :: after

/-! ### Characters -/

namespace Piece

/-- Each place in the text of pieces is under one of them. -/
theorem exists_over {ps : List Piece} {i : Nat} (h : i < (texts ps).length) :
    ∃ as p bs, ps = as ++ p :: bs ∧ (texts as).length ≤ i ∧
      i < (texts as).length + p.text.length := by
  induction ps generalizing i with
  | nil => cases h
  | cons p ps ih =>
    rw [texts_cons, List.length_append] at h
    by_cases hi : i < p.text.length
    · exact ⟨[], p, ps, rfl, Nat.zero_le i, by rwa [texts_nil, List.length_nil, Nat.zero_add]⟩
    · have hrest : i - p.text.length < (texts ps).length := by omega
      obtain ⟨as, q, bs, rfl, hle, hlt⟩ := ih hrest
      refine ⟨p :: as, q, bs, rfl, ?_, ?_⟩
      · rw [texts_cons, List.length_append]
        omega
      · rw [texts_cons, List.length_append]
        omega

/-- Two splits of the same pieces at one place are the same. -/
theorem over_unique {as bs as' bs' : List Piece} {p p' : Piece} {i : Nat}
    (h : as ++ p :: bs = as' ++ p' :: bs') (hle : (texts as).length ≤ i)
    (hlt : i < (texts as).length + p.text.length) (hle' : (texts as').length ≤ i)
    (hlt' : i < (texts as').length + p'.text.length) : as = as' ∧ p = p' ∧ bs = bs' := by
  induction as generalizing as' i with
  | nil =>
    rcases as' with - | ⟨q, as'⟩
    · exact ⟨rfl, List.cons.inj h⟩
    · obtain ⟨rfl, -⟩ := List.cons.inj h
      rw [texts_cons, List.length_append] at hle'
      rw [texts_nil, List.length_nil] at hlt
      omega
  | cons a as ih =>
    rcases as' with - | ⟨a', as'⟩
    · obtain ⟨rfl, -⟩ := List.cons.inj h
      rw [texts_cons, List.length_append] at hle
      rw [texts_nil, List.length_nil] at hlt'
      omega
    · obtain ⟨rfl, hrest⟩ := List.cons.inj h
      rw [texts_cons, List.length_append] at hle hlt hle' hlt'
      obtain ⟨rfl, rfl, rfl⟩ := ih (i := i - a.text.length) hrest (by omega) (by omega) (by omega)
        (by omega)
      exact ⟨rfl, rfl, rfl⟩

end Piece

namespace Tile

variable {source : Text}

/-- The byte offset where a tile starts. -/
def offset (x : Tile source) : Nat := (Piece.texts x.before).bytes

/-- The character with this number, counted from 0, lies under the tile. -/
def Covers (x : Tile source) (i : Nat) : Prop :=
  (Piece.texts x.before).length ≤ i ∧ i < (Piece.texts x.before).length + x.piece.text.length

theorem fits (x : Tile source) : x.piece.Fits (Piece.texts x.after) := by
  have htiled := tiled_pieces source
  rw [x.split] at htiled
  exact htiled.behind.1

end Tile

/-- **Each character lies under exactly one tile.** -/
theorem Text.exists_unique_tile {source : Text} {i : Nat} (h : i < source.length) :
    ∃! x : Tile source, x.Covers i := by
  rw [← Piece.texts_pieces source] at h
  obtain ⟨as, p, bs, hsplit, hle, hlt⟩ := Piece.exists_over h
  refine ⟨⟨as, p, bs, hsplit⟩, ⟨hle, hlt⟩, ?_⟩
  rintro ⟨as', p', bs', hsplit'⟩ ⟨hle', hlt'⟩
  obtain ⟨rfl, rfl, rfl⟩ := Piece.over_unique (hsplit'.symm.trans hsplit) hle' hlt' hle hlt
  rfl

/-! ### What a tile is -/

namespace Tile

variable {source : Text}

/-- The report of an unexpected character at an offset. -/
def unexpected (offset : Nat) (c : Char) : Mismatch := ⟨offset, .construct [.token], [c]⟩

/-- The report of a missing quote at the end of a text. -/
def unterminated (source : Text) : Mismatch :=
  ⟨source.bytes, .construct [.closeQuote], Construct.endOfInput.text⟩

/-- What a tile can be. -/
inductive Role (x : Tile source) : Prop
  | token (t : Token) (hmem : t ∈ source.tokens) (hoffset : t.offset = x.offset)
    (hpiece : x.piece = ⟨.token t.kind, t.lexeme⟩)
  | white (c : Char) (hc : c ∈ [' ', '\r', '\t', '\n']) (hpiece : x.piece = ⟨.blank, [c]⟩)
  | comment (s : Text) (hs : '\n' ∉ s) (hrest : ∀ c ∈ (Piece.texts x.after).head?, c = '\n')
    (hpiece : x.piece = ⟨.blank, ';' :: s⟩)
  | unexpected (c : Char) (hmem : .error (Tile.unexpected x.offset c) ∈ source.scan)
    (hnone : TokenClass.at? (c :: Piece.texts x.after) = none) (hpiece : x.piece = ⟨.stray, [c]⟩)
  | unterminated (v : Text) (hmem : .error (Tile.unterminated source) ∈ source.scan)
    (hlast : x.after = []) (hpiece : x.piece = ⟨.unclosed, '"' :: doubled v⟩)

/-- What a tile yields is among the items of the text. -/
theorem scanned_subset (x : Tile source) :
    ∃ line, ∀ i ∈ x.piece.scanned x.offset (x.offset + x.piece.text.bytes) line,
      i ∈ source.scan := by
  refine ⟨1 + (Piece.texts x.before).count '\n' + x.piece.text.count '\n', fun i hi => ?_⟩
  rw [scan_eq_row, x.split, Piece.row_append, Nat.zero_add]
  exact List.mem_append_left _ (List.mem_append_right _ (List.mem_append_left _ hi))

/-- **What each tile is.** -/
theorem role (x : Tile source) : x.Role := by
  obtain ⟨line, hitems⟩ := x.scanned_subset
  have hfits := x.fits
  generalize hp : x.piece = p at hfits
  generalize hrest : Piece.texts x.after = rest at hfits
  rw [hp] at hitems
  cases hfits with
  | white hc => exact .white _ hc hp
  | comment hs hfeed => exact .comment _ hs (hrest ▸ hfeed) hp
  | token => exact .token _ (mem_tokens_iff.2 (hitems _ (List.mem_singleton.2 rfl))) rfl hp
  | stray h => exact .unexpected _ (hitems _ (List.mem_singleton.2 rfl)) (hrest ▸ h.at?) hp
  | unclosed v =>
    have hlast := Piece.last_of_unclosed x.split (congrArg Piece.kind hp)
    have hstop : x.offset + Text.bytes ('"' :: doubled v) = source.bytes := by
      have hbytes := congrArg bytes (eq_append_of_pieces x.split)
      rw [hlast, hp, Piece.texts_nil, List.append_nil, bytes_append] at hbytes
      exact hbytes.symm
    rw [hstop] at hitems
    exact .unterminated v (hitems _ (List.mem_singleton.2 rfl)) hlast hp

/-- Every token but the end of input is a tile. -/
theorem exists_of_token {t : Token} (h : t ∈ source.tokens) (hkind : t.kind ≠ .endOfInput) :
    ∃ x : Tile source, x.piece = ⟨.token t.kind, t.lexeme⟩ ∧ x.offset = t.offset := by
  rcases mem_scan (mem_tokens_iff.1 h) with ⟨as, p, bs, hpieces, ht⟩ | ht
  · obtain ⟨kind, text⟩ := p
    cases kind with
    | blank => cases ht
    | token kind =>
      obtain rfl := Except.ok.inj (List.mem_singleton.1 ht)
      exact ⟨⟨as, _, bs, hpieces⟩, rfl, rfl⟩
    | stray => cases List.mem_singleton.1 ht
    | unclosed => cases List.mem_singleton.1 ht
  · obtain rfl := Except.ok.inj ht
    exact absurd rfl hkind

/-- Every report is that of a tile. -/
theorem exists_of_error {m : Mismatch} (h : .error m ∈ source.scan) :
    ∃ x : Tile source, (∃ c, x.piece = ⟨.stray, [c]⟩ ∧ m = unexpected x.offset c) ∨
      (x.piece.kind = .unclosed ∧ m = unterminated source) := by
  rcases mem_scan h with ⟨as, p, bs, hpieces, hm⟩ | hm
  · let x : Tile source := ⟨as, p, bs, hpieces⟩
    refine ⟨x, ?_⟩
    have hfits := x.fits
    obtain ⟨kind, text⟩ := p
    cases kind with
    | blank => cases hm
    | token => cases List.mem_singleton.1 hm
    | stray =>
      obtain rfl := Except.error.inj (List.mem_singleton.1 hm)
      generalize hrest : Piece.texts x.after = rest at hfits
      cases hfits with
      | stray => exact .inl ⟨_, rfl, rfl⟩
    | unclosed =>
      obtain rfl := Except.error.inj (List.mem_singleton.1 hm)
      obtain rfl := Piece.last_of_unclosed hpieces rfl
      refine .inr ⟨rfl, ?_⟩
      rw [← hpieces, Piece.texts_pieces]
      rfl
  · cases hm

end Tile

/-! ### Tokens -/

theorem Piece.pairwise_scan (ps : List Piece) (offset line : Nat) :
    ((scan offset line ps).filterMap Except.toOption).Pairwise (fun t u => t.stop ≤ u.offset) ∧
      ∀ t ∈ (scan offset line ps).filterMap Except.toOption, offset ≤ t.offset := by
  induction ps generalizing offset line with
  | nil =>
    refine ⟨List.pairwise_singleton _ _, fun t ht => ?_⟩
    obtain rfl := List.mem_singleton.1 ht
    exact Nat.le_refl offset
  | cons p ps ih =>
    obtain ⟨hrest, hle⟩ := ih (offset + p.text.bytes) (line + p.text.count '\n')
    have hle' := fun t ht => Nat.le_trans (Nat.le_add_right offset p.text.bytes) (hle t ht)
    obtain ⟨kind, text⟩ := p
    cases kind with
    | blank | stray | unclosed => exact ⟨hrest, hle'⟩
    | token kind =>
      exact ⟨List.pairwise_cons.2 ⟨hle, hrest⟩,
        List.forall_mem_cons.2 ⟨Nat.le_refl offset, hle'⟩⟩

namespace Text

variable {source : Text} {t : Token}

/-- **Tokens come in order and do not overlap.** -/
theorem pairwise_tokens (source : Text) :
    source.tokens.Pairwise fun t u => t.stop ≤ u.offset :=
  (Piece.pairwise_scan source.pieces 0 1).1

/-- **The end of input is the last item**, and no other one. -/
theorem exists_scan_eq (source : Text) :
    ∃ items line, source.scan = items ++ [.ok ⟨.endOfInput, [], source.bytes, line⟩] ∧
      ∀ t, .ok t ∈ items → t.kind ≠ .endOfInput :=
  ⟨_, _, scan_eq_row source, fun _ ht => Piece.kind_ne_end_of_mem_row ht⟩

/-- The end of input has no characters and stands behind all of them. -/
theorem eq_end_of_mem_tokens (h : t ∈ source.tokens) (hkind : t.kind = .endOfInput) :
    t = ⟨.endOfInput, [], source.bytes, 1 + source.count '\n'⟩ := by
  have ht := mem_tokens_iff.1 h
  rw [scan_eq_row, List.mem_append, List.mem_singleton] at ht
  rcases ht with ht | ht
  · exact absurd hkind (Piece.kind_ne_end_of_mem_row ht)
  · exact Except.ok.inj ht

theorem slice_of_mem_tokens (h : t ∈ source.tokens) : source.slice t.offset t.stop = t.lexeme := by
  obtain ⟨before, after, hsource, hoffset⟩ := lexeme_of_mem_tokens h
  rw [hsource, Token.stop, hoffset, slice_append]

/-- **Each token is written as its kind is**, and as long as it can be at its offset. -/
theorem longest_of_mem_tokens (h : t ∈ source.tokens) (hkind : t.kind ≠ .endOfInput) :
    Spells t.kind t.lexeme ∧ ∃ before after cls, source = before ++ t.lexeme ++ after ∧
      t.offset = before.bytes ∧ t.kind.class? = some cls ∧ cls.Longest t.lexeme after := by
  obtain ⟨x, hx, hoffset⟩ := Tile.exists_of_token h hkind
  have hfits := x.fits
  rw [hx] at hfits
  obtain ⟨cls, hcls, hlongest⟩ := Piece.longest_of_fits hfits
  refine ⟨?_, _, _, cls, ?_, hoffset.symm, hcls, hlongest⟩
  · cases hfits with
    | token hspells => exact hspells
  · have hsource := eq_append_of_pieces x.split
    rwa [hx] at hsource

/-- Only the end of input is empty. -/
theorem offset_lt_stop (h : t ∈ source.tokens) (hkind : t.kind ≠ .endOfInput) :
    t.offset < t.stop := by
  obtain ⟨hspells, -⟩ := longest_of_mem_tokens h hkind
  obtain ⟨c, s, hs⟩ := List.exists_cons_of_ne_nil hspells.ne_nil
  have hpos := c.utf8Size_pos
  rw [Token.stop, hs, bytes_cons]
  omega

end Text

theorem Text.IsWord.at? {s : Text} (h : IsWord s) : TokenClass.at? s = some .word := by
  have hmatch : TokenClass.word.Matches s [] := ⟨h, fun _ => nofun⟩
  have hat := hmatch.at?
  rwa [List.append_nil] at hat

/-- **A lexeme is that of a keyword exactly if it is in the table**, which then has its kind. -/
theorem Spells.keyword_iff {k : TokenKind} {s : Text} (h : Spells k s) :
    (k.IsKeyword ↔ ∃ k', (s, k') ∈ keywords) ∧ ∀ k', (s, k') ∈ keywords → k' = k := by
  have hword : ∀ k', (s, k') ∈ keywords → TokenClass.at? s = some .word :=
    fun k' hk' => (isWord_of_keyword hk').at?
  -- a lexeme of another class is no word, and so not in the table
  have hnot : ∀ cls, TokenClass.at? s = some cls → cls ≠ .word → ¬ k.IsKeyword →
      (k.IsKeyword ↔ ∃ k', (s, k') ∈ keywords) ∧ ∀ k', (s, k') ∈ keywords → k' = k := by
    intro cls hat hne hkind
    have hout : ∀ k', (s, k') ∉ keywords := fun k' hk' =>
      hne (Option.some.inj (hat.symm.trans (hword k' hk')))
    exact ⟨⟨fun h => absurd h hkind, fun ⟨k', hk'⟩ => absurd hk' (hout k')⟩,
      fun k' hk' => absurd hk' (hout k')⟩
  cases h with
  | openParen | closeParen | colon => exact hnot .mark rfl nofun id
  | arrow => exact hnot .arrow rfl nofun id
  | number h =>
    have hmatch : TokenClass.number.Matches s [] := h
    have hat := hmatch.at?
    rw [List.append_nil] at hat
    exact hnot .number hat nofun id
  | string v => exact hnot .string rfl nofun id
  | keyword h =>
    refine ⟨⟨fun _ => ⟨k, h⟩, fun _ => TokenKind.isKeyword_of_mem h⟩, fun k' hk' => ?_⟩
    rw [← TokenKind.ofWord_of_keyword hk', TokenKind.ofWord_of_keyword h]
  | identifier h hw =>
    exact ⟨⟨fun h => h.elim, fun ⟨k', hk'⟩ => absurd hk' (hw k')⟩,
      fun k' hk' => absurd hk' (hw k')⟩

/-! ### All together -/

/-- **Scanning tiles the text.**  A new scanner answers with the items of the text and then
with nothing, and the last item is the only end of input.  Tokens come in order, without
overlaps, each with the slice of the text at its offset as its lexeme.  Every character lies under
exactly one tile, every tile has its role, and every item before the end of input belongs to
a tile.  Each token is written as its kind is and is the longest lexeme of its class at
its offset, and keywords are exactly the words in the table. -/
theorem scanning_tiles_the_text (source : Text) :
    (∀ k, (Scanner.new source).answer k = source.scan[k]?) ∧
    (∃ items line, source.scan = items ++ [.ok ⟨.endOfInput, [], source.bytes, line⟩] ∧
      ∀ t, .ok t ∈ items → t.kind ≠ .endOfInput) ∧
    (source.tokens.Pairwise fun t u => t.stop ≤ u.offset) ∧
    (∀ t ∈ source.tokens, source.slice t.offset t.stop = t.lexeme) ∧
    (∀ i < source.length, ∃! x : Tile source, x.Covers i) ∧
    (∀ x : Tile source, x.Role) ∧
    (∀ m, .error m ∈ source.scan →
      ∃ x : Tile source, (∃ c, x.piece = ⟨.stray, [c]⟩ ∧ m = Tile.unexpected x.offset c) ∨
        (x.piece.kind = .unclosed ∧ m = Tile.unterminated source)) ∧
    (∀ t ∈ source.tokens, t.kind ≠ .endOfInput →
      (∃ x : Tile source, x.piece = ⟨.token t.kind, t.lexeme⟩ ∧ x.offset = t.offset) ∧
      Spells t.kind t.lexeme ∧
      (∃ before after cls, source = before ++ t.lexeme ++ after ∧ t.offset = before.bytes ∧
        t.kind.class? = some cls ∧ cls.Longest t.lexeme after) ∧
      (t.kind.IsKeyword ↔ ∃ k, (t.lexeme, k) ∈ keywords) ∧
      ∀ k, (t.lexeme, k) ∈ keywords → k = t.kind) := by
  refine ⟨Scanner.answer_new source, exists_scan_eq source, pairwise_tokens source,
    fun t ht => slice_of_mem_tokens ht, fun i hi => exists_unique_tile hi, Tile.role,
    fun m hm => Tile.exists_of_error hm, fun t ht hkind => ?_⟩
  obtain ⟨hspells, hlongest⟩ := longest_of_mem_tokens ht hkind
  exact ⟨Tile.exists_of_token ht hkind, hspells, hlongest, hspells.keyword_iff⟩

/-- The first hyphen of `a-->"` is under one tile, and behind two tokens, the report of the
open string and the end of input there is no further answer. -/
theorem scanning_tiles_the_text_arrow :
    1 < "a-->\"".toList.length ∧ (∃! x : Tile "a-->\"".toList, x.Covers 1) ∧
      (Scanner.new "a-->\"".toList).answer 4 = none := by
  have hlength : 1 < "a-->\"".toList.length := by decide +kernel
  have hitems : (scan "a-->\"".toList).length = 4 := by decide +kernel
  obtain ⟨hanswers, -, -, -, htiles, -⟩ := scanning_tiles_the_text "a-->\"".toList
  exact ⟨hlength, htiles 1 hlength,
    (hanswers 4).trans (List.getElem?_eq_none (Nat.le_of_eq hitems))⟩

end DrawLang
