/-
DrawLang/Proofs/Token/Scanner.lean

Scanning one item at a time.  A scanner holds what is left of a text; each call
cuts pieces off until one of them yields an item.  At the end of the text it
answers with the end of input, once, and from then on with nothing.

What a scanner is going to answer is the list of its items (`Scanner.next_eq`), so
the answers of a new scanner are the items of the text, in order, and nothing
after them (`Scanner.answer_new`).
-/
import DrawLang.Proofs.Token.Row

namespace DrawLang

/-- A scanner on its way through a text. -/
structure Scanner where
  rest : Text
  /-- The byte offset where the rest starts. -/
  offset : Nat
  line : Nat
  /-- Has the end of input been given out? -/
  finished : Bool

namespace Scanner

/-- A scanner in front of a text. -/
def new (source : Text) : Scanner := ⟨source, 0, 1, false⟩

/-- The scanner behind a piece that it stands in front of. -/
def behind (s : Scanner) (p : Piece) (rest : Text) : Scanner :=
  ⟨rest, s.offset + p.text.bytes, s.line + p.text.count '\n', s.finished⟩

/-- The next item, if there is one, and the scanner behind it. -/
def next (s : Scanner) : Option Scanned × Scanner :=
  if s.finished then (none, s)
  else
    match _hrest : s.rest with
    | [] => (some (.ok ⟨.endOfInput, [], s.offset, s.line⟩), { s with finished := true })
    | c :: t =>
      let p := (Piece.cut c t).1
      let s' := s.behind p (Piece.cut c t).2
      match p.scanned s.offset s'.offset s'.line with
      | [] => s'.next
      | x :: _ => (some x, s')
termination_by s.rest.length
decreasing_by
  have := Piece.length_cut_le c t
  simp only [behind, _hrest, List.length_cons]
  omega

/-- The answer to the call with this number, counted from 0. -/
def answer (s : Scanner) : Nat → Option Scanned
  | 0 => s.next.1
  | k + 1 => s.next.2.answer k

/-- The items that are still to come. -/
def items (s : Scanner) : List Scanned :=
  if s.finished then [] else Piece.scan s.offset s.line s.rest.pieces

/-- A piece yields one item at most. -/
theorem scanned_cons {p : Piece} {offset stop line : Nat} {x : Scanned} {xs : List Scanned}
    (h : p.scanned offset stop line = x :: xs) : xs = [] := by
  unfold Piece.scanned at h
  split at h
  · cases h
  · exact (List.cons.inj h).2.symm
  · exact (List.cons.inj h).2.symm
  · exact (List.cons.inj h).2.symm

/-- **A call takes the first item off** those that are still to come. -/
theorem next_eq (s : Scanner) : s.next.1 = s.items.head? ∧ s.next.2.items = s.items.tail := by
  fun_induction next s with
  | case1 s hfinished => simp [items, hfinished]
  | case2 s hfinished hrest => simp [items, hfinished, hrest, Piece.scan]
  | case3 s hfinished c t hrest p s' hblank ih =>
    have hitems : s.items = s'.items := by
      have hfinished' : ¬ s'.finished := hfinished
      rw [items, items, if_neg hfinished, if_neg hfinished', hrest, Text.pieces_cons, Piece.scan]
      exact (congrArg (· ++ _) hblank).trans (List.nil_append _)
    rw [hitems]
    exact ih
  | case4 s hfinished c t hrest p s' x xs hitem =>
    obtain rfl := scanned_cons hitem
    have hfinished' : ¬ s'.finished := hfinished
    have hitems : s.items = x :: s'.items := by
      rw [items, items, if_neg hfinished, if_neg hfinished', hrest, Text.pieces_cons, Piece.scan]
      exact (congrArg (· ++ _) hitem).trans List.singleton_append
    rw [hitems]
    exact ⟨rfl, rfl⟩

theorem answer_eq (s : Scanner) (k : Nat) : s.answer k = s.items[k]? := by
  induction k generalizing s with
  | zero => rw [answer, (next_eq s).1, List.head?_eq_getElem?]
  | succ k ih => rw [answer, ih, (next_eq s).2, List.getElem?_tail]

/-- **The answers of a new scanner are the items of the text**, and nothing after them. -/
theorem answer_new (source : Text) (k : Nat) : (new source).answer k = source.scan[k]? :=
  answer_eq (new source) k

end Scanner

end DrawLang
