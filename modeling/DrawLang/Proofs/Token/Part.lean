/-
DrawLang/Proofs/Token/Part.lean

The tokens of a part of a text.  A part that starts where one token starts and
stops where another one stops has the tokens between them and no others: they
are those of the whole, moved back by the bytes and the lines in front of the
part (`Text.tokens?_slice`).
-/
import DrawLang.Proofs.Token.Local

namespace DrawLang

/-- The token as it is in a text without the first bytes and lines. -/
def Token.back (bytes lines : Nat) (t : Token) : Token :=
  { t with offset := t.offset - bytes, line := t.line - lines }

namespace Piece

variable {ps : List Piece} {offset line : Nat}

/-! ### Rows of tokens -/

/-- The first piece of a row of tokens is blank or the first token. -/
theorem row_cons_eq_map {p : Piece} {ts : List Token}
    (h : row offset line (p :: ps) = ts.map .ok) :
    (p.kind = .blank ∧ row (offset + p.text.bytes) (line + p.text.count '\n') ps = ts.map .ok) ∨
    ∃ kind us, p.kind = .token kind ∧
      ts = ⟨kind, p.text, offset, line + p.text.count '\n'⟩ :: us ∧
      row (offset + p.text.bytes) (line + p.text.count '\n') ps = us.map .ok := by
  rw [row, scanned] at h
  split at h
  · rename_i hkind
    exact .inl ⟨hkind, h⟩
  · rename_i kind hkind
    rcases ts with - | ⟨t, us⟩
    · cases h
    · obtain ⟨ht, hus⟩ := List.cons.inj h
      obtain rfl := Except.ok.inj ht
      exact .inr ⟨kind, us, hkind, rfl, hus⟩
  · rcases ts with - | ⟨t, us⟩
    · cases h
    · cases (List.cons.inj h).1
  · rcases ts with - | ⟨t, us⟩
    · cases h
    · cases (List.cons.inj h).1

/-- In a row of tokens no string is left open. -/
theorem kind_of_row {ts : List Token} (h : row offset line ps = ts.map .ok) :
    ∀ p ∈ ps, p.kind ≠ .unclosed := by
  induction ps generalizing offset line ts with
  | nil => exact List.forall_mem_nil _
  | cons p ps ih =>
    rcases row_cons_eq_map h with ⟨hkind, hrest⟩ | ⟨kind, us, hkind, -, hrest⟩
    · exact List.forall_mem_cons.2 ⟨by simp [hkind], ih hrest⟩
    · exact List.forall_mem_cons.2 ⟨by simp [hkind], ih hrest⟩

/-- A row of tokens without the bytes and the lines before it. -/
theorem row_back {bytes lines : Nat} {ts : List Token}
    (h : row (offset + bytes) (line + lines) ps = ts.map .ok) :
    row offset line ps = (ts.map (Token.back bytes lines)).map .ok ∧
      ∀ t ∈ ts, bytes ≤ t.offset := by
  induction ps generalizing offset line ts with
  | nil =>
    obtain rfl := List.map_eq_nil_iff.1 h.symm
    exact ⟨rfl, List.forall_mem_nil _⟩
  | cons p ps ih =>
    rcases row_cons_eq_map h with ⟨hkind, hrest⟩ | ⟨kind, us, hkind, rfl, hrest⟩
    · rw [Nat.add_right_comm offset, Nat.add_right_comm line] at hrest
      rw [row, scanned, hkind]
      exact ih hrest
    · rw [Nat.add_right_comm offset, Nat.add_right_comm line] at hrest
      obtain ⟨hrow, hle⟩ := ih hrest
      refine ⟨?_, List.forall_mem_cons.2 ⟨Nat.le_add_left _ _, hle⟩⟩
      rw [row, scanned, hkind, hrow, List.map_cons, List.map_cons, Token.back,
        Nat.add_right_comm line, Nat.add_sub_cancel, Nat.add_sub_cancel]
      rfl

/-- A token of a row is one of the pieces; before it and behind it are the other tokens. -/
theorem exists_piece_of_row {before after : List Token} {t : Token}
    (h : row offset line ps = (before ++ t :: after).map .ok) :
    ∃ as p bs, ps = as ++ p :: bs ∧ t.lexeme = p.text ∧
      t.offset = offset + (texts as).bytes ∧ row offset line as = before.map .ok ∧
      row offset line (as ++ [p]) = (before ++ [t]).map .ok := by
  induction ps generalizing offset line before with
  | nil =>
    rw [row, List.map_append, List.map_cons] at h
    exact absurd h.symm (List.append_ne_nil_of_right_ne_nil _ (List.cons_ne_nil _ _))
  | cons p ps ih =>
    rcases row_cons_eq_map h with ⟨hkind, hrest⟩ | ⟨kind, us, hkind, hts, hrest⟩
    · obtain ⟨as, q, bs, rfl, hlexeme, hoffset, has, hq⟩ := ih hrest
      refine ⟨p :: as, q, bs, rfl, hlexeme, ?_, ?_, ?_⟩
      · rw [hoffset, texts_cons, Text.bytes_append, Nat.add_assoc]
      · rw [row, scanned, hkind]
        exact has
      · rw [List.cons_append, row, scanned, hkind]
        exact hq
    · rcases before with - | ⟨s, before⟩
      · obtain ⟨rfl, rfl⟩ := List.cons.inj hts
        refine ⟨[], p, ps, rfl, rfl, rfl, rfl, ?_⟩
        rw [List.nil_append, row, scanned, hkind]
        rfl
      · obtain ⟨rfl, rfl⟩ := List.cons.inj hts
        obtain ⟨as, q, bs, rfl, hlexeme, hoffset, has, hq⟩ := ih hrest
        refine ⟨p :: as, q, bs, rfl, hlexeme, ?_, ?_, ?_⟩
        · rw [hoffset, texts_cons, Text.bytes_append, Nat.add_assoc]
        · rw [row, scanned, hkind, has]
          rfl
        · rw [List.cons_append, row, scanned, hkind, hq]
          rfl

end Piece

/-! ### Parts of a text -/

namespace Text

theorem mapM_scanned_map (ts : List Token) : (ts.map .ok : List Scanned).mapM id = .ok ts := by
  induction ts with
  | nil => rfl
  | cons t ts ih =>
    rw [List.map_cons, List.mapM_cons, ih]
    rfl

/-- A text whose pieces make a row of tokens has these tokens. -/
theorem tokens?_of_row {t : Text} {ts : List Token} (h : Piece.row 0 1 t.pieces = ts.map .ok) :
    ∃ stop : Token, t.tokens? = .ok (ts ++ [stop]) ∧ stop.kind = .endOfInput := by
  refine ⟨⟨.endOfInput, [], 0 + (Piece.texts t.pieces).bytes,
    1 + (Piece.texts t.pieces).count '\n'⟩, ?_, rfl⟩
  rw [tokens?, scan, Piece.scan_eq_row, h, ← mapM_scanned_map, List.map_append]
  rfl

/-- **A part of a text that starts and stops with tokens has the tokens between them**, and
is as long as they reach. -/
theorem tokens?_slice {source : Text} {before ms after init more : List Token}
    {first final last : Token} (h : source.tokens? = .ok (before ++ ms ++ after ++ [last]))
    (hfirst : ms = first :: more) (hfinal : ms = init ++ [final]) :
    (∀ t ∈ ms, first.offset ≤ t.offset) ∧
    (∃ lines stop, (source.slice first.offset final.stop).tokens? =
        .ok (ms.map (Token.back first.offset lines) ++ [stop]) ∧ stop.kind = .endOfInput) ∧
    (source.slice first.offset final.stop).bytes + first.offset = final.stop := by
  obtain ⟨us, last', hus, hrow, -⟩ := exists_row_of_tokens? h
  obtain rfl := (List.append_inj' hus rfl).1
  -- the part starts with a piece, which is its first token
  have hhead : before ++ ms ++ after = before ++ first :: (more ++ after) := by
    rw [hfirst, List.append_assoc, List.cons_append]
  obtain ⟨as, p, bs, hpieces, -, hoffset, has, -⟩ := Piece.exists_piece_of_row (hhead ▸ hrow)
  have hbehind : Piece.row (0 + (Piece.texts as).bytes) (1 + (Piece.texts as).count '\n')
      (p :: bs) = (init ++ final :: after).map .ok := by
    rw [hpieces, Piece.row_append, has, List.append_assoc, List.map_append] at hrow
    rw [List.append_cancel_left hrow, hfinal, List.append_assoc, List.singleton_append]
  -- and stops with a piece, which is its last token
  obtain ⟨cs, q, ds, hpart, hlexeme, hstop, -, hms⟩ := Piece.exists_piece_of_row hbehind
  rw [← hfinal] at hms
  obtain ⟨hback, hle⟩ := Piece.row_back hms
  have hsource : source = Piece.texts as ++ Piece.texts (cs ++ [q]) ++ Piece.texts ds := by
    rw [← Piece.texts_append, ← Piece.texts_append, List.append_assoc, List.append_assoc,
      List.singleton_append, ← hpart, ← hpieces, Piece.texts_pieces]
  have hsum : final.stop = (Piece.texts as).bytes + (Piece.texts (cs ++ [q])).bytes := by
    rw [Token.stop, hstop, hlexeme, Piece.texts_append, bytes_append, Piece.texts_cons,
      Piece.texts_nil, List.append_nil, Nat.zero_add, Nat.add_assoc]
  have hslice : source.slice first.offset final.stop = Piece.texts (cs ++ [q]) := by
    rw [hsource, hoffset, hsum, Nat.zero_add, slice_append]
  have hwhole : (Piece.texts (cs ++ [q])).pieces = cs ++ [q] := by
    have hbs : (Piece.texts (p :: bs)).pieces = cs ++ [q] ++ ds := by
      rw [pieces_texts_behind hpieces, hpart, List.append_assoc, List.singleton_append]
    exact pieces_texts hbs (Piece.kind_of_row hms)
  rw [← hwhole] at hback
  rw [Nat.zero_add] at hoffset
  rw [hslice, hoffset]
  exact ⟨hle, ⟨_, tokens?_of_row hback⟩, by rw [hsum, Nat.add_comm]⟩

end Text

end DrawLang
