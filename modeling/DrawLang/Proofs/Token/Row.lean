/-
DrawLang/Proofs/Token/Row.lean

The row of tokens and reports that pieces yield, the end of input aside.  It is
put together from the rows of its parts, each shifted by the bytes and the lines
before it (`Piece.row_append`), so a token or a report stands where its piece
does (`Piece.mem_row`).

The tokens of a text without reports are therefore a row and the end of input,
which is nowhere else (`Text.exists_row_of_tokens?`).
-/
import Mathlib.Data.List.Basic
import DrawLang.Token.Scan

namespace DrawLang

/-! ### Pieces and their bytes -/

/-- The text that pieces make up. -/
def Piece.texts (ps : List Piece) : Text := ps.flatMap Piece.text

namespace Piece

@[simp] theorem texts_nil : texts [] = [] := rfl

@[simp] theorem texts_cons (p : Piece) (ps : List Piece) : texts (p :: ps) = p.text ++ texts ps :=
  List.flatMap_cons

@[simp] theorem texts_append (ps qs : List Piece) : texts (ps ++ qs) = texts ps ++ texts qs :=
  List.flatMap_append

theorem texts_pieces (t : Text) : texts t.pieces = t := Text.flatMap_pieces t

/-- What pieces yield, without the end of input. -/
def row (offset line : Nat) : List Piece → List Scanned
  | [] => []
  | p :: ps =>
    let stop := offset + p.text.bytes
    let line := line + p.text.count '\n'
    p.scanned offset stop line ++ row stop line ps

theorem scan_eq_row (ps : List Piece) (offset line : Nat) :
    scan offset line ps = row offset line ps ++
      [.ok ⟨.endOfInput, [], offset + (texts ps).bytes, line + (texts ps).count '\n'⟩] := by
  induction ps generalizing offset line with
  | nil => rfl
  | cons p ps ih =>
    rw [scan, row, ih, texts_cons, Text.bytes_append, List.count_append, List.append_assoc,
      Nat.add_assoc, Nat.add_assoc]

theorem row_append (ps qs : List Piece) (offset line : Nat) :
    row offset line (ps ++ qs) = row offset line ps ++
      row (offset + (texts ps).bytes) (line + (texts ps).count '\n') qs := by
  induction ps generalizing offset line with
  | nil => rfl
  | cons p ps ih =>
    rw [List.cons_append, row, row, ih, texts_cons, Text.bytes_append, List.count_append,
      List.append_assoc, Nat.add_assoc, Nat.add_assoc]

/-- What stands in a row is the yield of one of the pieces, at its place. -/
theorem mem_row {ps : List Piece} {offset line : Nat} {x : Scanned} (h : x ∈ row offset line ps) :
    ∃ as p bs, ps = as ++ p :: bs ∧
      x ∈ p.scanned (offset + (texts as).bytes) (offset + (texts (as ++ [p])).bytes)
        (line + (texts (as ++ [p])).count '\n') := by
  induction ps generalizing offset line with
  | nil => cases h
  | cons p ps ih =>
    rw [row, List.mem_append] at h
    rcases h with h | h
    · refine ⟨[], p, ps, rfl, ?_⟩
      simpa using h
    · obtain ⟨as, q, bs, rfl, hx⟩ := ih h
      refine ⟨p :: as, q, bs, rfl, ?_⟩
      simpa [Nat.add_assoc] using hx

/-! ### Single pieces -/

/-- No piece is the end of input. -/
theorem kind_cut_ne_end (c : Char) (t : Text) : (cut c t).1.kind ≠ .token .endOfInput := by
  have hword : ∀ w, TokenKind.ofWord w ≠ .endOfInput := by
    intro w
    unfold TokenKind.ofWord
    split
    · exact nofun
    · split
      · exact nofun
      · split <;> exact nofun
  unfold cut number
  repeat' split
  all_goals simp [hword]

theorem kind_ne_end {t : Text} {p : Piece} (h : p ∈ t.pieces) : p.kind ≠ .token .endOfInput := by
  fun_induction Text.pieces t with
  | case1 => cases h
  | case2 c t ih =>
    rcases List.mem_cons.1 h with rfl | h
    · exact kind_cut_ne_end c t
    · exact ih h

/-- A string that never closes goes on up to the end of the text. -/
theorem rest_of_unclosed {c : Char} {t : Text} (h : (cut c t).1.kind = .unclosed) :
    (cut c t).2 = [] := by
  revert h
  unfold cut number
  repeat' split
  all_goals simp

theorem last_of_unclosed {t : Text} {as bs : List Piece} {p : Piece}
    (h : t.pieces = as ++ p :: bs) (hp : p.kind = .unclosed) : bs = [] := by
  fun_induction Text.pieces t generalizing as with
  | case1 => exact absurd h (by simp)
  | case2 c t ih =>
    rcases as with - | ⟨a, as⟩
    · obtain ⟨rfl, rfl⟩ := List.cons.inj h
      rw [rest_of_unclosed hp, Text.pieces_nil]
    · exact ih (List.cons.inj h).2

end Piece

/-- Scanning a text yields its row and the end of input. -/
theorem Text.scan_eq_row (t : Text) :
    t.scan = Piece.row 0 1 t.pieces ++ [.ok ⟨.endOfInput, [], t.bytes, 1 + t.count '\n'⟩] := by
  rw [scan, Piece.scan_eq_row, Piece.texts_pieces, Nat.zero_add]

/-! ### Tokens without reports -/

/-- Checking a row yields its tokens, or the first report. -/
theorem Text.mapM_scanned_eq_ok {xs : List Scanned} {ts : List Token}
    (h : xs.mapM id = .ok ts) : xs = ts.map .ok := by
  induction xs generalizing ts with
  | nil =>
    cases h
    rfl
  | cons x xs ih =>
    rw [List.mapM_cons] at h
    rcases x with m | t
    · cases h
    · rcases e : xs.mapM id with m | us
      · rw [e] at h
        cases h
      · rw [e] at h
        obtain rfl : t :: us = ts := Except.ok.inj h
        rw [ih e, List.map_cons]

/-- Before the report that checking a row yields there are only tokens. -/
theorem Text.exists_first_of_mapM_scanned_eq_error {xs : List Scanned} {m : Mismatch}
    (h : xs.mapM id = .error m) : ∃ (ts : List Token) (rest : List Scanned),
      xs = ts.map .ok ++ .error m :: rest := by
  induction xs with
  | nil => cases h
  | cons x xs ih =>
    rw [List.mapM_cons] at h
    rcases x with m' | t
    · cases h
      exact ⟨[], xs, rfl⟩
    · rcases e : xs.mapM id with m' | us
      · rw [e] at h
        cases h
        obtain ⟨ts, rest, rfl⟩ := ih e
        exact ⟨t :: ts, rest, rfl⟩
      · rw [e] at h
        cases h

theorem Text.mem_of_mapM_scanned_eq_error {xs : List Scanned} {m : Mismatch}
    (h : xs.mapM id = .error m) : .error m ∈ xs := by
  obtain ⟨ts, rest, rfl⟩ := exists_first_of_mapM_scanned_eq_error h
  exact List.mem_append_right _ List.mem_cons_self

/-- The items of a row are the yield of pieces, none of which is the end of input. -/
theorem Piece.kind_ne_end_of_mem_row {t : Text} {offset line : Nat} {u : Token}
    (h : .ok u ∈ Piece.row offset line t.pieces) : u.kind ≠ .endOfInput := by
  obtain ⟨as, p, bs, hpieces, hu⟩ := Piece.mem_row h
  have hmem : p ∈ t.pieces := hpieces ▸ List.mem_append_right as List.mem_cons_self
  have hp := Piece.kind_ne_end hmem
  unfold Piece.scanned at hu
  split at hu
  · cases hu
  · rename_i kind hkind
    obtain rfl := Except.ok.inj (List.mem_singleton.1 hu)
    exact fun hend => hp (hkind.trans (congrArg PieceKind.token hend))
  · exact absurd (List.mem_singleton.1 hu) nofun
  · exact absurd (List.mem_singleton.1 hu) nofun

/-- **The tokens of a text without reports are a row of tokens and, behind them, the end
of input.** -/
theorem Text.exists_row_of_tokens? {source : Text} {ts : List Token}
    (h : source.tokens? = .ok ts) :
    ∃ us last, ts = us ++ [last] ∧ Piece.row 0 1 source.pieces = us.map .ok ∧
      (∀ t ∈ us, t.kind ≠ .endOfInput) ∧ last.kind = .endOfInput ∧ last.offset = source.bytes := by
  have hscan := Text.mapM_scanned_eq_ok h
  rw [Text.scan_eq_row] at hscan
  obtain ⟨us, vs, rfl, hus, hvs⟩ := List.append_eq_map_iff.1 hscan
  obtain ⟨last, ws, rfl, hlast, hws⟩ := List.map_eq_cons_iff.1 hvs
  obtain rfl := List.map_eq_nil_iff.1 hws
  obtain rfl := Except.ok.inj hlast
  refine ⟨us, _, rfl, hus.symm, fun t ht => ?_, rfl, rfl⟩
  exact Piece.kind_ne_end_of_mem_row (hus ▸ List.mem_map_of_mem ht)

end DrawLang
