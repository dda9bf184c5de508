/-
DrawLang/Proofs/Token/Marked.lean

The marked offsets of a text, where its tokens start, where a character stands
that starts none, and where the text ends.  All of them have a position, since
pieces start and end at boundaries (`Text.slice_of_pieces`,
`Text.Marked.hasPosition`), and scanning reports at no other offset
(`Text.marked_of_scan`).
-/
import DrawLang.Proofs.Text.Boundary
import DrawLang.Proofs.Token.Row

namespace DrawLang

/-- A token of the text starts at the offset, or a character that starts no token, or
the text ends there. -/
inductive Text.Marked (source : Text) : Nat → Prop
  | token {t : Token} (h : t ∈ source.tokens) : Text.Marked source t.offset
  | stray {as bs : List Piece} {p : Piece} (h : source.pieces = as ++ p :: bs)
    (hp : p.kind = .stray) : Text.Marked source (Piece.texts as).bytes
  | stop : Text.Marked source source.bytes

namespace Text

theorem hasPosition_of_pieces {source : Text} {as bs : List Piece} (h : source.pieces = as ++ bs) :
    source.HasPosition (Piece.texts as).bytes := by
  have hsource : source = Piece.texts as ++ Piece.texts bs := by
    rw [← Piece.texts_append, ← h, Piece.texts_pieces]
  have hposition := hasPosition_append (Piece.texts as) (Piece.texts bs)
  rwa [← hsource] at hposition

theorem eq_append_of_pieces {source : Text} {as bs : List Piece} {p : Piece}
    (h : source.pieces = as ++ p :: bs) :
    source = Piece.texts as ++ p.text ++ Piece.texts bs := by
  rw [← Piece.texts_pieces source, h, Piece.texts_append, Piece.texts_cons, List.append_assoc]

/-- **Cutting at the ends of a piece** gives back its text. -/
theorem slice_of_pieces {source : Text} {as bs : List Piece} {p : Piece}
    (h : source.pieces = as ++ p :: bs) :
    source.slice (Piece.texts as).bytes (Piece.texts (as ++ [p])).bytes = p.text := by
  have hstop : (Piece.texts (as ++ [p])).bytes = (Piece.texts as).bytes + p.text.bytes := by simp
  rw [hstop, eq_append_of_pieces h]
  exact slice_append _ _ _

theorem mem_scan {source : Text} {x : Scanned} (h : x ∈ source.scan) :
    (∃ as p bs, source.pieces = as ++ p :: bs ∧
      x ∈ p.scanned (Piece.texts as).bytes (Piece.texts (as ++ [p])).bytes
        (1 + (Piece.texts (as ++ [p])).count '\n')) ∨
    x = .ok ⟨.endOfInput, [], source.bytes, 1 + source.count '\n'⟩ := by
  rw [scan_eq_row, List.mem_append] at h
  rcases h with h | h
  · obtain ⟨as, p, bs, hpieces, hx⟩ := Piece.mem_row h
    rw [Nat.zero_add, Nat.zero_add] at hx
    exact .inl ⟨as, p, bs, hpieces, hx⟩
  · exact .inr (List.mem_singleton.1 h)

theorem mem_tokens_iff {source : Text} {t : Token} : t ∈ source.tokens ↔ .ok t ∈ source.scan := by
  rw [tokens, List.mem_filterMap]
  constructor
  · rintro ⟨m | u, hu, h⟩
    · cases h
    · cases h
      exact hu
  · exact fun h => ⟨.ok t, h, rfl⟩

/-- **Tokens stand where their lexemes do**, with the line feeds up to there as their line. -/
theorem place_of_mem_tokens {source : Text} {t : Token} (h : t ∈ source.tokens) :
    ∃ before after, source = before ++ t.lexeme ++ after ∧ t.offset = before.bytes ∧
      t.line = 1 + (before ++ t.lexeme).count '\n' := by
  rcases mem_scan (mem_tokens_iff.1 h) with ⟨as, p, bs, hpieces, ht⟩ | ht
  · rw [Piece.texts_append, Piece.texts_cons, Piece.texts_nil, List.append_nil] at ht
    unfold Piece.scanned at ht
    split at ht
    · cases ht
    · obtain rfl := Except.ok.inj (List.mem_singleton.1 ht)
      exact ⟨_, _, eq_append_of_pieces hpieces, rfl, rfl⟩
    · exact absurd (List.mem_singleton.1 ht) nofun
    · exact absurd (List.mem_singleton.1 ht) nofun
  · obtain rfl := Except.ok.inj ht
    exact ⟨source, [], by simp, rfl, by rw [List.append_nil]⟩

theorem lexeme_of_mem_tokens {source : Text} {t : Token} (h : t ∈ source.tokens) :
    ∃ before after, source = before ++ t.lexeme ++ after ∧ t.offset = before.bytes := by
  obtain ⟨before, after, hsource, hoffset, -⟩ := place_of_mem_tokens h
  exact ⟨before, after, hsource, hoffset⟩

/-- **Marked offsets have a position.** -/
theorem Marked.hasPosition {source : Text} {offset : Nat} (h : source.Marked offset) :
    source.HasPosition offset := by
  cases h with
  | token h =>
    obtain ⟨before, after, rfl, hoffset⟩ := lexeme_of_mem_tokens h
    rw [hoffset, List.append_assoc]
    exact hasPosition_append _ _
  | stray h => exact hasPosition_of_pieces h
  | stop => exact hasPosition_bytes source

/-- **Scanning reports at marked offsets.** -/
theorem marked_of_scan {source : Text} {m : Mismatch} (h : .error m ∈ source.scan) :
    source.Marked m.offset := by
  rcases mem_scan h with ⟨as, p, bs, hpieces, hm⟩ | hm
  · unfold Piece.scanned at hm
    split at hm
    · cases hm
    · exact absurd (List.mem_singleton.1 hm) nofun
    · rename_i hkind
      obtain rfl := Except.error.inj (List.mem_singleton.1 hm)
      exact .stray hpieces hkind
    -- a string that never closes is the last piece, and is reported at its end
    · rename_i hkind
      obtain rfl := Except.error.inj (List.mem_singleton.1 hm)
      obtain rfl := Piece.last_of_unclosed hpieces hkind
      rw [← hpieces, Piece.texts_pieces]
      exact .stop
  · cases hm

/-- What scanning reports is wrong with the form of the text. -/
theorem kind_of_scan {source : Text} {m : Mismatch} (h : .error m ∈ source.scan) :
    m.wanted.kind = .parse := by
  rcases mem_scan h with ⟨as, p, bs, hpieces, hm⟩ | hm
  · unfold Piece.scanned at hm
    split at hm
    · cases hm
    · exact absurd (List.mem_singleton.1 hm) nofun
    · obtain rfl := Except.error.inj (List.mem_singleton.1 hm)
      rfl
    · obtain rfl := Except.error.inj (List.mem_singleton.1 hm)
      rfl
  · cases hm

end Text

end DrawLang
