/-
DrawLang/Proofs/Token/Joined.lean

Scanning a text that is put together.  At a line feed each piece ends where it ends
at the end of input, unless it is a string that is left open
(`Piece.Fits.append_feed`).  So the pieces of two texts with a line feed between them
are the pieces of both and the line feed (`Text.pieces_feed`), and what scanning
yields is the yield of the first without its end of input and the yield of the
second, moved forward by the bytes and the lines before it.  The same goes for the
two sides of a character that is reported.
-/
import DrawLang.Proofs.Text.Joined
import DrawLang.Proofs.Token.Break
import DrawLang.Proofs.Token.Part
import DrawLang.Proofs.Token.Tiling

namespace DrawLang

open Text

/-! ### Moving forward -/

/-- The token behind further bytes and lines. -/
def Token.forward (bytes lines : Nat) (t : Token) : Token :=
  { t with offset := t.offset + bytes, line := t.line + lines }

/-- The report behind further bytes. -/
def Mismatch.forward (bytes : Nat) (m : Mismatch) : Mismatch :=
  { m with offset := m.offset + bytes }

/-- What scanning yields behind further bytes and lines. -/
def Scanned.forward (bytes lines : Nat) : Scanned → Scanned
  | .ok t => .ok (t.forward bytes lines)
  | .error m => .error (m.forward bytes)

/-- The fault on a later line; kind, message and column are kept. -/
def Stop.below (lines : Nat) : Stop → Stop
  | .fault f => .fault { f with line := f.line + lines }
  | .crash c => .crash c

/-- What scanning a text yields, with the reports placed in the text. -/
def Text.items (t : Text) : List (Except Stop Token) :=
  t.scan.map (Except.mapError (Mismatch.stop t))

/-- An item of a text behind a text with so many bytes, line feeds and line ends. -/
def Text.itemBehind (bytes feeds ends : Nat) : Except Stop Token → Except Stop Token
  | .ok t => .ok (t.forward bytes feeds)
  | .error s => .error (s.below ends)

theorem Text.items_eq_row (t : Text) :
    t.items = (Piece.row 0 1 t.pieces).map (Except.mapError (Mismatch.stop t)) ++
      [.ok ⟨.endOfInput, [], t.bytes, 1 + t.count '\n'⟩] := by
  rw [items, scan_eq_row, List.map_append]
  rfl

namespace Piece

theorem scanned_forward (p : Piece) (offset stop line bytes lines : Nat) :
    p.scanned (offset + bytes) (stop + bytes) (line + lines) =
      (p.scanned offset stop line).map (Scanned.forward bytes lines) := by
  unfold scanned
  split <;> rfl

/-- What pieces yield moves along with them. -/
theorem scan_forward (ps : List Piece) (offset line bytes lines : Nat) :
    scan (offset + bytes) (line + lines) ps =
      (scan offset line ps).map (Scanned.forward bytes lines) := by
  induction ps generalizing offset line with
  | nil => rfl
  | cons p ps ih =>
    rw [scan, scan, List.map_append, ← ih, Nat.add_right_comm offset bytes,
      Nat.add_right_comm line lines, scanned_forward]

theorem scan_append (as bs : List Piece) (offset line : Nat) :
    scan offset line (as ++ bs) = row offset line as ++
      scan (offset + (texts as).bytes) (line + (texts as).count '\n') bs := by
  rw [scan_eq_row, scan_eq_row, row_append, List.append_assoc, texts_append, bytes_append,
    List.count_append, Nat.add_assoc, Nat.add_assoc]

end Piece

/-! ### A line feed behind a piece -/

namespace Piece

/-- **At a line feed a piece ends** where it ends at the end of input, if it is no open string. -/
theorem Fits.append_feed {p : Piece} {r b : Text} (h : p.Fits r) (hp : p.kind ≠ .unclosed) :
    p.Fits (r ++ '\n' :: b) := by
  cases h with
  | white hc => exact .white hc
  | comment hs hrest =>
    refine .comment hs fun c hc => ?_
    rcases r with - | ⟨d, r⟩
    · exact (Option.some.inj hc).symm
    · exact hrest c hc
  | token hspells hends => exact .token hspells (hends.append_break (by decide))
  | stray h => exact .stray (h.append_break (by decide))
  | unclosed => exact absurd rfl hp

/-- The piece that a line feed is. -/
def feed : Piece := ⟨.blank, ['\n']⟩

theorem Tiled.append_feed {as bs : List Piece} (has : Tiled as)
    (hclosed : ∀ p ∈ as, p.kind ≠ .unclosed) (hbs : Tiled bs) : Tiled (as ++ feed :: bs) := by
  induction as with
  | nil => exact ⟨.white (by decide), hbs⟩
  | cons p as ih =>
    obtain ⟨hp, hclosed⟩ := List.forall_mem_cons.1 hclosed
    refine ⟨?_, ih has.2 hclosed⟩
    have htexts : texts (as ++ feed :: bs) = texts as ++ '\n' :: texts bs := texts_append _ _
    exact htexts ▸ has.1.append_feed hp

end Piece

/-! ### Texts that are put together -/

namespace Text

/-- No string of the text is left open. -/
def Closed (t : Text) : Prop := .error (Tile.unterminated t) ∉ t.scan

instance (t : Text) : Decidable t.Closed :=
  inferInstanceAs (Decidable (.error (Tile.unterminated t) ∉ t.scan))

theorem Closed.kind_ne {t : Text} (h : t.Closed) : ∀ p ∈ t.pieces, p.kind ≠ .unclosed := by
  intro p hp hkind
  obtain ⟨as, bs, hsplit⟩ := List.append_of_mem hp
  have hrole := Tile.role ⟨as, p, bs, hsplit⟩
  cases hrole with
  | unterminated v hmem => exact h hmem
  | token t hmem hoffset hpiece =>
    exact absurd ((congrArg Piece.kind hpiece).symm.trans hkind) nofun
  | white c hc hpiece | comment s hs hrest hpiece | unexpected c hmem hnone hpiece =>
    exact absurd ((congrArg Piece.kind hpiece).symm.trans hkind) nofun

/-- **The pieces of two texts with a line feed between them.** -/
theorem pieces_feed {a b : Text} (h : a.Closed) :
    (a ++ '\n' :: b).pieces = a.pieces ++ Piece.feed :: b.pieces := by
  refine pieces_eq_iff.2 ⟨?_, (tiled_pieces a).append_feed h.kind_ne (tiled_pieces b)⟩
  rw [Piece.texts_append, Piece.texts_cons, Piece.texts_pieces, Piece.texts_pieces]
  rfl

/-- **Scanning goes on behind each piece** as at the start of a text, and what is in front of
the piece is as it is alone. -/
theorem scan_of_pieces {t : Text} {as bs : List Piece} {p : Piece} (h : t.pieces = as ++ p :: bs) :
    t.scan = Piece.row 0 1 (Piece.texts as).pieces ++
      (p.scanned (Piece.texts as).bytes ((Piece.texts as).bytes + p.text.bytes)
        (1 + (Piece.texts as).count '\n' + p.text.count '\n') ++
      (Piece.texts bs).scan.map (Scanned.forward ((Piece.texts as).bytes + p.text.bytes)
        ((Piece.texts as).count '\n' + p.text.count '\n'))) := by
  have has : ∀ q ∈ as, q.kind ≠ .unclosed := by
    intro q hq hkind
    obtain ⟨as₁, as₂, rfl⟩ := List.append_of_mem hq
    rw [List.append_assoc, List.cons_append] at h
    exact absurd (Piece.last_of_unclosed h hkind)
      (List.append_ne_nil_of_right_ne_nil _ (List.cons_ne_nil _ _))
  have hbs : (Piece.texts bs).pieces = bs := by
    rw [List.append_cons] at h
    exact pieces_texts_behind h
  rw [scan, h, Piece.scan_append, Piece.scan, pieces_texts h has, scan, hbs,
    ← Piece.scan_forward, Nat.zero_add, Nat.zero_add, Nat.add_assoc 1]

/-- Behind pieces that fit there, a text has its tokens behind theirs, moved forward. -/
theorem tokens?_behind {as : List Piece} {us ts : List Token} {t : Text}
    (htiled : Piece.Tiled (as ++ t.pieces)) (hrow : Piece.row 0 1 as = us.map .ok)
    (ht : t.tokens? = .ok ts) :
    (Piece.texts as ++ t).tokens? = .ok (us ++
      ts.map (Token.forward (Piece.texts as).bytes ((Piece.texts as).count '\n'))) := by
  have hpieces : (Piece.texts as ++ t).pieces = as ++ t.pieces :=
    pieces_eq_iff.2 ⟨by rw [Piece.texts_append, Piece.texts_pieces], htiled⟩
  have hmoved : ∀ bytes lines, (ts.map .ok : List Scanned).map (Scanned.forward bytes lines) =
      (ts.map (Token.forward bytes lines)).map .ok := by
    intro bytes lines
    rw [List.map_map, List.map_map]
    rfl
  rw [tokens?, scan, hpieces, Piece.scan_append, Piece.scan_forward, ← scan, mapM_scanned_eq_ok ht,
    hmoved, hrow, ← List.map_append, mapM_scanned_map]

/-- Scanning two texts with a line feed between them. -/
theorem scan_feed {a b : Text} (h : a.Closed) :
    (a ++ '\n' :: b).scan = Piece.row 0 1 a.pieces ++
      b.scan.map (Scanned.forward (a.bytes + 1) (a.count '\n' + 1)) := by
  have hscan := scan_of_pieces (pieces_feed (b := b) h)
  rw [Piece.texts_pieces, Piece.texts_pieces] at hscan
  exact hscan

/-- Scanning the two sides of a character that is reported. -/
theorem scan_unexpected {x y : Text} {c : Char}
    (h : .error (Tile.unexpected x.bytes c) ∈ (x ++ c :: y).scan) :
    (x ++ c :: y).scan = Piece.row 0 1 x.pieces ++ .error (Tile.unexpected x.bytes c) ::
      y.scan.map (Scanned.forward (x.bytes + c.utf8Size) (x.count '\n')) := by
  obtain ⟨tile, ⟨d, hpiece, hd⟩ | ⟨-, hd⟩⟩ := Tile.exists_of_error h
  · rw [Tile.unexpected, Tile.unexpected, Mismatch.mk.injEq] at hd
    obtain ⟨hoffset, -, hgot⟩ := hd
    obtain rfl := (List.cons.inj hgot).1
    -- the tile stands between the two sides
    have hsource := eq_append_of_pieces tile.split
    rw [hpiece, List.append_assoc] at hsource
    obtain ⟨hx, hy⟩ := append_inj_of_bytes hsource hoffset
    have hbehind : y = Piece.texts tile.after := (List.cons.inj hy).2
    have hscan := scan_of_pieces tile.split
    rw [hpiece, ← hx, ← hbehind] at hscan
    have hcount : List.count '\n' [c] = 0 := by
      have hfits := tile.fits
      rw [hpiece] at hfits
      refine List.count_eq_zero.2 fun hmem => ?_
      obtain rfl := List.mem_singleton.1 hmem
      cases hfits with
      | stray h => exact h.mark (by decide)
    rw [hcount] at hscan
    exact hscan
  · rw [Tile.unexpected, Tile.unterminated, Mismatch.mk.injEq] at hd
    cases hd.2.1

/-! ### Reports -/

/-- A report at a cut is a fault, with the line and the column of the cut. -/
theorem stop_append (s t : Text) (wanted : Wanted) (got : Text) :
    Mismatch.stop (s ++ t) ⟨s.bytes, wanted, got⟩ = .fault ⟨wanted, got,
      1 + lineEnds (s ++ t.take 1), max 1 (lastLine (s ++ t.take 1)).length⟩ := by
  rw [Mismatch.stop, Stop.at, Fault.at?, position?_append]
  rfl

/-- A report in front of a character is the same fault, whatever comes behind. -/
theorem stop_before (s t u : Text) (c : Char) (wanted : Wanted) (got : Text) :
    Mismatch.stop (s ++ c :: t ++ u) ⟨s.bytes, wanted, got⟩ =
      Mismatch.stop (s ++ c :: t) ⟨s.bytes, wanted, got⟩ := by
  rw [List.append_assoc, stop_append, stop_append]
  rfl

/-- A report behind a line feed is the same fault further down. -/
theorem stop_behind (a s t : Text) (wanted : Wanted) (got : Text) :
    Mismatch.stop (a ++ '\n' :: (s ++ t)) ⟨s.bytes + (a.bytes + 1), wanted, got⟩ =
      (Mismatch.stop (s ++ t) ⟨s.bytes, wanted, got⟩).below (lineEnds (a ++ ['\n'])) := by
  have htext : a ++ '\n' :: (s ++ t) = (a ++ '\n' :: s) ++ t := by
    rw [List.append_assoc, List.cons_append]
  have hbytes : s.bytes + (a.bytes + 1) = (a ++ '\n' :: s).bytes := by
    have hfeed : Char.utf8Size '\n' = 1 := by decide
    rw [bytes_append, bytes_cons, hfeed]
    omega
  have hseen : a ++ '\n' :: s ++ t.take 1 = a ++ '\n' :: (s ++ t.take 1) := by
    rw [List.append_assoc, List.cons_append]
  rw [htext, hbytes, stop_append, stop_append, hseen, lineEnds_feed,
    lastLine_behind (by decide), Stop.below, Nat.add_left_comm, Nat.add_comm (lineEnds (a ++ ['\n']))]

/-- A report that is no open string is in front of a character. -/
theorem exists_split_of_closed {a : Text} {m : Mismatch} (h : a.Closed) (hm : .error m ∈ a.scan) :
    ∃ (s : Text) (c : Char) (t : Text), a = s ++ c :: t ∧ m.offset = s.bytes := by
  obtain ⟨x, ⟨c, hpiece, rfl⟩ | ⟨-, rfl⟩⟩ := Tile.exists_of_error hm
  · have hsource := eq_append_of_pieces x.split
    rw [hpiece, List.append_assoc] at hsource
    exact ⟨_, c, _, hsource, rfl⟩
  · exact absurd hm h

/-- A report is at a cut of the text. -/
theorem exists_split_of_error {b : Text} {m : Mismatch} (hm : .error m ∈ b.scan) :
    ∃ s t : Text, b = s ++ t ∧ m.offset = s.bytes := by
  obtain ⟨x, ⟨c, hpiece, rfl⟩ | ⟨-, rfl⟩⟩ := Tile.exists_of_error hm
  · have hsource := eq_append_of_pieces x.split
    rw [List.append_assoc] at hsource
    exact ⟨_, _, hsource, rfl⟩
  · exact ⟨b, [], (List.append_nil b).symm, rfl⟩

/-- The reports in a text without an open string do not depend on what follows. -/
theorem mapError_before {a u : Text} (h : a.Closed) {x : Scanned} (hx : x ∈ a.scan) :
    x.mapError (Mismatch.stop (a ++ u)) = x.mapError (Mismatch.stop a) := by
  rcases x with ⟨offset, wanted, got⟩ | t
  · obtain ⟨s, c, t, rfl, rfl⟩ := exists_split_of_closed h hx
    exact congrArg Except.error (stop_before s t u c wanted got)
  · rfl

/-- The reports in a text behind a line feed are those in the text alone, further down. -/
theorem mapError_behind (a : Text) {b : Text} {x : Scanned} (hx : x ∈ b.scan) :
    (Scanned.forward (a.bytes + 1) (a.count '\n' + 1) x).mapError
        (Mismatch.stop (a ++ '\n' :: b)) =
      itemBehind (a.bytes + 1) (a.count '\n' + 1) (lineEnds (a ++ ['\n']))
        (x.mapError (Mismatch.stop b)) := by
  rcases x with ⟨offset, wanted, got⟩ | t
  · obtain ⟨s, t, rfl, rfl⟩ := exists_split_of_error hx
    exact congrArg Except.error (stop_behind a s t wanted got)
  · rfl

end Text

/-! ### All together -/

/-- **Scanning joins at line ends, and goes on behind what it reports.**  If no string is left
open in `a`, the items of `a`, a line feed and `b` are those of `a` without the end of
input and those of `b` with the tokens moved forward and the faults moved down, so that
each fault keeps its kind, its message and its column.  An unexpected character leaves
the items of what is in front of it and of what is behind it as they are without it. -/
theorem scanning_joins_at_line_ends (a b : Text) (h : a.Closed) :
    (∃ before stop, a.items = before ++ [.ok stop] ∧ stop.kind = .endOfInput ∧
      (a ++ '\n' :: b).items = before ++ b.items.map
        (itemBehind (a.bytes + 1) (a.count '\n' + 1) (lineEnds (a ++ ['\n'])))) ∧
    ∀ (x : Text) (c : Char) (y : Text), .error (Tile.unexpected x.bytes c) ∈ (x ++ c :: y).scan →
      ∃ before stop, x.scan = before ++ [.ok stop] ∧ stop.kind = .endOfInput ∧
        (x ++ c :: y).scan = before ++ .error (Tile.unexpected x.bytes c) ::
          y.scan.map (Scanned.forward (x.bytes + c.utf8Size) (x.count '\n')) := by
  constructor
  · refine ⟨_, _, items_eq_row a, rfl, ?_⟩
    rw [items, scan_feed h, List.map_append, List.map_map, items, List.map_map]
    congr 1
    · refine List.map_congr_left fun x hx => mapError_before h ?_
      rw [Text.scan_eq_row]
      exact List.mem_append_left _ hx
    · exact List.map_congr_left fun x hx => mapError_behind a hx
  · intro x c y hreport
    exact ⟨_, _, scan_eq_row x, rfl, scan_unexpected hreport⟩

/-- A line with an unexpected character and a quote in a comment, and one with another
unexpected character. -/
theorem scanning_joins_at_line_ends_reports :
    Closed "é ; \"".toList ∧
    items ("é ; \"".toList ++ '\n' :: " $".toList) =
      [.error (.fault ⟨.construct [.token], "é".toList, 1, 1⟩),
        .error (.fault ⟨.construct [.token], "$".toList, 2, 2⟩), .ok ⟨.endOfInput, [], 9, 2⟩] ∧
    ∃ before, scan "é ; \"".toList = before ++ .error (Tile.unexpected 0 'é') ::
      (scan " ; \"".toList).map (Scanned.forward 2 0) := by
  have hclosed : Closed "é ; \"".toList := by decide +kernel
  have hfirst : items "é ; \"".toList =
      [.error (.fault ⟨.construct [.token], "é".toList, 1, 1⟩)] ++
        [.ok ⟨.endOfInput, [], 6, 1⟩] := by
    decide +kernel
  have hreport : .error (Tile.unexpected 0 'é') ∈ scan "é ; \"".toList := by decide +kernel
  obtain ⟨⟨before, stop, hbefore, -, hitems⟩, hreports⟩ :=
    scanning_joins_at_line_ends "é ; \"".toList " $".toList hclosed
  obtain ⟨before', -, -, -, hscan⟩ := hreports [] 'é' " ; \"".toList hreport
  refine ⟨hclosed, ?_, before', hscan⟩
  rw [hitems, ← (List.append_inj' (hfirst.symm.trans hbefore) rfl).1]
  decide +kernel

end DrawLang
