/-
DrawLang/Proofs/Text/Lines.lean

Lines and columns as a reader counts them.  A text is cut in lines at its line ends, each of
them a line feed, a carriage return or the two together (`Text.InLines`), in one way only
(`InLines.eq`).  A position is told by the text up to and including its character: the number
of the line ends, and what is behind the last of them (`Position.IsOf`).  As this text grows,
its last line comes to be a later one or grows itself, so that positions never go backwards
(`extent_le_append`), and forwards at each character that ends no line (`extent_lt_concat`).

Main statement: `positions_count_lines_and_characters`.
-/
import Mathlib.Data.Prod.Lex
import DrawLang.Proofs.Text.Joined

namespace DrawLang

namespace Text

variable {l t s rest : Text} {ends n : Nat} {c : Char}

/-! ### Texts in lines -/

/-- The line ends. -/
inductive IsLineEnd : Text → Prop
  | feed : IsLineEnd ['\n']
  | carriage : IsLineEnd ['\r']
  | both : IsLineEnd ['\r', '\n']

/-- The text has so many line ends, and this behind the last of them.  A carriage return in
front of a line feed does not end a line alone. -/
inductive InLines : (t : Text) → (ends : Nat) → (rest : Text) → Prop
  | last {t : Text} (h : ∀ c ∈ t, isInLine c) : InLines t 0 t
  | line {l e t rest : Text} {ends : Nat} (hline : ∀ c ∈ l, isInLine c) (hend : IsLineEnd e)
    (halone : e = ['\r'] → t.head? ≠ some '\n') (h : InLines t ends rest) :
    InLines (l ++ (e ++ t)) (ends + 1) rest

theorem not_isInLine_iff : ¬ isInLine c ↔ c = '\n' ∨ c = '\r' := by
  simp only [isInLine, Bool.and_eq_true, decide_eq_true_eq, not_and_or, ne_eq, not_not]

theorem lineEnds_append (h : ∀ c ∈ l, isInLine c) (t : Text) :
    lineEnds (l ++ t) = lineEnds t := by
  induction l with
  | nil => rfl
  | cons c l ih =>
    obtain ⟨hc, hl⟩ := List.forall_mem_cons.1 h
    have hnone : ¬ (c = '\n' ∨ c = '\r' ∧ (l ++ t).head? ≠ some '\n') := fun hends =>
      not_isInLine_iff.2 (hends.imp_right And.left) hc
    rw [List.cons_append, lineEnds, if_neg hnone, ih hl, Nat.zero_add]

theorem lastLine_of_isInLine (h : ∀ c ∈ t, isInLine c) : lastLine t = t := by
  have hall : ∀ c ∈ t.reverse, isInLine c := fun c hc => h c (List.mem_reverse.1 hc)
  have htake : (t.reverse ++ []).takeWhile isInLine = t.reverse ++ [].takeWhile isInLine :=
    List.takeWhile_append_of_pos hall
  rw [List.append_nil, List.takeWhile_nil, List.append_nil] at htake
  rw [lastLine, htake, List.reverse_reverse]

/-- **Lines are counted, and the last one is found.** -/
theorem InLines.eq (h : InLines t ends rest) : ends = lineEnds t ∧ rest = lastLine t := by
  induction h with
  | last h =>
    have hnone := lineEnds_append h []
    rw [List.append_nil] at hnone
    exact ⟨hnone.symm, (lastLine_of_isInLine h).symm⟩
  | @line l e t rest ends hline hend halone _ ih =>
    obtain ⟨rfl, rfl⟩ := ih
    rw [lineEnds_append hline]
    cases hend with
    | feed => exact ⟨Nat.add_comm _ _, (lastLine_behind (by decide) l t).symm⟩
    | carriage =>
      have hends : '\r' = '\n' ∨ '\r' = '\r' ∧ t.head? ≠ some '\n' := .inr ⟨rfl, halone rfl⟩
      refine ⟨?_, (lastLine_behind (by decide) l t).symm⟩
      rw [List.singleton_append, lineEnds, if_pos hends, Nat.add_comm]
    | both =>
      refine ⟨?_, ?_⟩
      · show lineEnds t + 1 = 0 + (1 + lineEnds t)
        omega
      · rw [List.cons_append, List.singleton_append, List.append_cons,
          lastLine_behind (by decide)]

/-- Every text can be cut in lines. -/
theorem exists_inLines (t : Text) : ∃ ends rest, InLines t ends rest := by
  -- a pair of carriage return and line feed is cut off in one step
  induction hlength : t.length using Nat.strongRecOn generalizing t with
  | ind n ih =>
    subst hlength
    rcases t with - | ⟨c, t⟩
    · exact ⟨0, [], .last nofun⟩
    obtain ⟨ends, rest, h⟩ := ih t.length (Nat.lt_succ_self _) t rfl
    by_cases hc : isInLine c
    · cases h with
      | last h => exact ⟨0, c :: t, .last (List.forall_mem_cons.2 ⟨hc, h⟩)⟩
      | line hline hend halone h =>
        exact ⟨_, rest, .line (List.forall_mem_cons.2 ⟨hc, hline⟩) hend halone h⟩
    rcases not_isInLine_iff.1 hc with rfl | rfl
    · exact ⟨ends + 1, rest, .line (l := []) nofun .feed nofun h⟩
    by_cases hpair : t.head? = some '\n'
    · obtain ⟨u, rfl⟩ := List.head?_eq_some_iff.1 hpair
      have hshorter : u.length < ('\r' :: '\n' :: u).length := by
        rw [List.length_cons, List.length_cons]
        omega
      obtain ⟨ends, rest, h⟩ := ih u.length hshorter u rfl
      exact ⟨ends + 1, rest, .line (l := []) nofun .both nofun h⟩
    · exact ⟨ends + 1, rest, .line (l := []) nofun .carriage (fun _ => hpair) h⟩

theorem inLines (t : Text) : InLines t (lineEnds t) (lastLine t) := by
  obtain ⟨ends, rest, h⟩ := exists_inLines t
  obtain ⟨rfl, rfl⟩ := h.eq
  exact h

/-! ### Growing texts -/

theorem lastLine_concat (s : Text) (c : Char) :
    lastLine (s ++ [c]) = if isInLine c then lastLine s ++ [c] else [] := by
  split
  case isTrue hc =>
    rw [lastLine, List.reverse_append, List.reverse_singleton, List.singleton_append,
      List.takeWhile_cons_of_pos hc, List.reverse_cons, lastLine]
  case isFalse hc => exact lastLine_behind hc s []

/-- A character ends a line, unless it is the line feed behind a carriage return that has ended
the line already. -/
theorem lineEnds_concat (s : Text) (c : Char) :
    lineEnds (s ++ [c]) =
      lineEnds s + if c = '\r' ∨ c = '\n' ∧ s.getLast? ≠ some '\r' then 1 else 0 := by
  induction s with
  | nil => simp [lineEnds, or_comm]
  | cons d s ih =>
    rcases s with - | ⟨e, s⟩
    · by_cases hd : d = '\r' <;> by_cases hc : c = '\n' <;> simp_all [lineEnds]
    · show _ + lineEnds (e :: s ++ [c]) = (_ + lineEnds (e :: s)) + _
      rw [ih, List.getLast?_cons_cons, Nat.add_assoc]
      rfl

/-- How far a text goes: the lines that have ended, and the size of the last one. -/
def extent (t : Text) : Nat ×ₗ Nat := toLex (lineEnds t, (lastLine t).length)

theorem extent_lt_concat (s : Text) (hc : isInLine c) : extent s < extent (s ++ [c]) := by
  have hsame : ¬ (c = '\r' ∨ c = '\n' ∧ s.getLast? ≠ some '\r') := fun hends =>
    not_isInLine_iff.2 (hends.symm.imp_left And.left) hc
  rw [extent, extent, lineEnds_concat, if_neg hsame, lastLine_concat, if_pos hc,
    List.length_append, Prod.Lex.toLex_lt_toLex]
  exact .inr ⟨rfl, Nat.lt_succ_self _⟩

theorem extent_le_concat (s : Text) (c : Char) : extent s ≤ extent (s ++ [c]) := by
  by_cases hc : isInLine c
  · exact (extent_lt_concat s hc).le
  rw [extent, extent, lineEnds_concat, lastLine_concat, if_neg hc, Prod.Lex.toLex_le_toLex]
  split
  case isTrue => exact .inl (Nat.lt_succ_self _)
  case isFalse hends =>
    -- the line has ended at the carriage return, and nothing has come behind it
    obtain ⟨hne, hpair⟩ := not_or.1 hends
    have hfeed := (not_isInLine_iff.1 hc).resolve_right hne
    have hlast : s.getLast? = some '\r' := by
      by_contra hlast
      exact hpair ⟨hfeed, hlast⟩
    obtain ⟨u, rfl⟩ := List.getLast?_eq_some_iff.1 hlast
    rw [lastLine_concat]
    exact .inr ⟨rfl, Nat.le_refl 0⟩

/-- **A text that grows never goes backwards.** -/
theorem extent_le_append (s t : Text) : extent s ≤ extent (s ++ t) := by
  induction t generalizing s with
  | nil => rw [List.append_nil]
  | cons c t ih =>
    rw [List.append_cons]
    exact (extent_le_concat s c).trans (ih (s ++ [c]))

/-! ### Offsets -/

theorem through?_of_le (h : t.bytes ≤ n) : through? n t = some t := by
  induction t generalizing n with
  | nil => rw [through?]
  | cons c t ih =>
    have hpos := c.utf8Size_pos
    rw [bytes_cons] at h
    obtain ⟨k, rfl⟩ : ∃ k, n = k + 1 := ⟨n - 1, by omega⟩
    rw [through?, if_pos (by omega), ih (by omega), Option.map_some]

/-- At a later offset more is seen. -/
theorem through?_mono {m : Nat} (hle : n ≤ m) {u : Text} (hs : through? n t = some s)
    (hu : through? m t = some u) : s <+: u := by
  induction t generalizing n m s u with
  | nil =>
    rw [through?] at hs
    exact Option.some.inj hs ▸ List.nil_prefix
  | cons c t ih =>
    rcases m with - | m
    · obtain rfl := Nat.le_zero.1 hle
      exact Option.some.inj (hs.symm.trans hu) ▸ List.prefix_rfl
    rw [through?] at hu
    split at hu
    case isFalse => cases hu
    obtain ⟨u', hu', rfl⟩ := Option.map_eq_some_iff.1 hu
    rcases n with - | n
    · rw [through?] at hs
      exact Option.some.inj hs ▸ List.prefix_append [c] u'
    rw [through?] at hs
    split at hs
    case isFalse => cases hs
    obtain ⟨s', hs', rfl⟩ := Option.map_eq_some_iff.1 hs
    exact (List.prefix_cons_inj c).2 (ih (by omega) hs' hu')

/-- The characters before an earlier one of two are followed by it. -/
theorem exists_of_bytes_lt {s' t' : Text} {c' : Char} (h : s ++ c :: t = s' ++ c' :: t')
    (hlt : s.bytes < s'.bytes) : ∃ u, s' = s ++ [c] ++ u := by
  rcases List.append_eq_append_iff.1 h with ⟨u, rfl, hu⟩ | ⟨u, rfl, -⟩
  · rcases u with - | ⟨d, u⟩
    · rw [List.append_nil] at hlt
      exact absurd hlt (Nat.lt_irrefl _)
    · obtain rfl := (List.cons.inj hu).1
      exact ⟨u, List.append_cons s c u⟩
  · rw [bytes_append] at hlt
    omega

end Text

/-! ### Positions -/

namespace Position

/-- The position tells this text from the start up to and including its character: the number
of its line, the characters in it so far, and the last one. -/
structure IsOf (seen : Text) (p : Position) : Prop where
  place : ∃ ends rest, Text.InLines seen ends rest ∧ p.line = 1 + ends ∧
    p.column = if rest = [] then 1 else rest.length
  last : seen = [] ∧ p.last = [] ∨ ∃ before c, seen = before ++ [c] ∧ p.last = [c]

/-- The position that the text up to and including its character has. -/
def ofSeen (seen : Text) : Position :=
  ⟨1 + Text.lineEnds seen, max 1 (Text.lastLine seen).length, Text.lastCharacter seen⟩

/-- The position is on an earlier line, or in the same line and not behind the other one. -/
def NotBehind (p q : Position) : Prop := p.line < q.line ∨ p.line = q.line ∧ p.column ≤ q.column

/-- The position is on an earlier line, or in the same line and before the other one. -/
def Before (p q : Position) : Prop := p.line < q.line ∨ p.line = q.line ∧ p.column < q.column

variable {seen seen' : Text}

theorem max_one_length (t : Text) : max 1 t.length = if t = [] then 1 else t.length := by
  split
  case isTrue hnil => rw [hnil]; rfl
  case isFalse hne => exact Nat.max_eq_right (List.length_pos_iff.2 hne)

theorem lastCharacter_concat (before : Text) (c : Char) :
    Text.lastCharacter (before ++ [c]) = [c] := by
  rw [Text.lastCharacter, List.getLast?_concat, Option.toList_some]

theorem isOf_ofSeen (seen : Text) : IsOf seen (ofSeen seen) := by
  refine ⟨⟨_, _, Text.inLines seen, rfl, max_one_length _⟩, ?_⟩
  rcases List.eq_nil_or_concat seen with rfl | ⟨before, c, rfl⟩
  · exact .inl ⟨rfl, rfl⟩
  · rw [List.concat_eq_append]
    exact .inr ⟨before, c, rfl, lastCharacter_concat before c⟩

/-- **A text has one position**, that of what is seen. -/
theorem isOf_iff {p : Position} : p.IsOf seen ↔ p = ofSeen seen := by
  constructor
  · obtain ⟨line, column, last⟩ := p
    rintro ⟨⟨ends, rest, hlines, hline, hcolumn⟩, hlast⟩
    obtain ⟨rfl, rfl⟩ := hlines.eq
    rw [← max_one_length] at hcolumn
    have hcharacter : last = Text.lastCharacter seen := by
      rcases hlast with ⟨rfl, hlast⟩ | ⟨before, c, rfl, hlast⟩
      · exact hlast
      · rw [lastCharacter_concat]
        exact hlast
    rw [ofSeen, Position.mk.injEq]
    exact ⟨hline, hcolumn, hcharacter⟩
  · rintro rfl
    exact isOf_ofSeen seen

theorem notBehind_ofSeen (h : seen <+: seen') : (ofSeen seen).NotBehind (ofSeen seen') := by
  obtain ⟨t, rfl⟩ := h
  have hextent := Text.extent_le_append seen t
  rw [Text.extent, Text.extent, Prod.Lex.toLex_le_toLex] at hextent
  unfold NotBehind ofSeen
  simp only at hextent ⊢
  omega

/-- A character that ends no line is behind all that was seen before and ended in a line. -/
theorem before_ofSeen {s : Text} {c c' : Char} (hc : Text.isInLine c) (hc' : Text.isInLine c')
    (t : Text) : (ofSeen (s ++ [c])).Before (ofSeen (s ++ [c] ++ t ++ [c'])) := by
  have hextent := (Text.extent_le_append (s ++ [c]) t).trans_lt
    (Text.extent_lt_concat (s ++ [c] ++ t) hc')
  rw [Text.extent, Text.extent, Prod.Lex.toLex_lt_toLex, Text.lastLine_concat,
    Text.lastLine_concat, if_pos hc, if_pos hc', List.length_append, List.length_append,
    List.length_singleton, List.length_singleton] at hextent
  unfold Before ofSeen
  rw [Text.lastLine_concat, Text.lastLine_concat, if_pos hc, if_pos hc', List.length_append,
    List.length_append, List.length_singleton, List.length_singleton]
  simp only at hextent ⊢
  omega

end Position

open Position Text

/-- **Positions count lines and characters.**  Each offset at which a text can be cut has the
position of what is seen up to and including the character there, and each one past the end
that of the whole text.  Positions do not go backwards from an offset to a later one, and of two
characters that end no line the later one has a position behind that of the other one. -/
theorem positions_count_lines_and_characters (source : Text) :
    (∀ s t : Text, s ++ t = source →
      ∃ p, source.position? s.bytes = some p ∧ ∀ q : Position, q.IsOf (s ++ t.take 1) ↔ q = p) ∧
    (∀ n, source.bytes ≤ n →
      ∃ p, source.position? n = some p ∧ ∀ q : Position, q.IsOf source ↔ q = p) ∧
    (∀ n m p q, n ≤ m → source.position? n = some p → source.position? m = some q →
      p.NotBehind q) ∧
    ∀ (s t s' t' : Text) (c c' : Char), s ++ c :: t = source → s' ++ c' :: t' = source →
      isInLine c → isInLine c' → s.bytes < s'.bytes →
        ∃ p q, source.position? s.bytes = some p ∧ source.position? s'.bytes = some q ∧
          p.Before q := by
  refine ⟨?_, fun n hn => ?_, ?_, ?_⟩
  · rintro s t rfl
    exact ⟨_, position?_append s t, fun q => isOf_iff⟩
  · exact ⟨ofSeen source, by rw [position?, through?_of_le hn]; rfl, fun q => isOf_iff⟩
  · intro n m p q hle hp hq
    obtain ⟨seen, hseen, rfl⟩ := Option.map_eq_some_iff.1 hp
    obtain ⟨seen', hseen', rfl⟩ := Option.map_eq_some_iff.1 hq
    exact notBehind_ofSeen (through?_mono hle hseen hseen')
  · rintro s t s' t' c c' rfl hsame hc hc' hlt
    obtain ⟨u, rfl⟩ := exists_of_bytes_lt hsame.symm hlt
    refine ⟨_, _, position?_append s (c :: t), ?_, before_ofSeen hc hc' u⟩
    rw [← hsame]
    exact position?_append (s ++ [c] ++ u) (c' :: t')

/-- The carriage return and the line feed of a pair have one position, which is that of the
character behind them as well.  The end of the text is on its third line, where nothing is. -/
theorem positions_count_lines_and_characters_pair :
    let source : Text := "é\r\nxü\n".toList
    let first : Text := "é".toList
    let second : Text := "é\r\nx".toList
    first ++ "\r\nxü\n".toList = source ∧ second ++ "ü\n".toList = source ∧ source.bytes ≤ 80 ∧
      source.position? first.bytes = some ⟨2, 1, ['\r']⟩ ∧
      Position.IsOf (first ++ ['\r']) ⟨2, 1, ['\r']⟩ ∧ Position.IsOf source ⟨3, 1, ['\n']⟩ ∧
      Position.NotBehind ⟨2, 1, ['\r']⟩ ⟨2, 1, ['\n']⟩ ∧ isInLine 'é' ∧ isInLine 'ü' ∧
      ∃ p q, source.position? 0 = some p ∧ source.position? second.bytes = some q ∧
        p.Before q ∧ q = ⟨2, 2, ['ü']⟩ := by
  intro source first second
  obtain ⟨hcut, hend, horder, hcharacters⟩ := positions_count_lines_and_characters source
  obtain ⟨p, hp, hfirst⟩ := hcut first "\r\nxü\n".toList rfl
  obtain rfl : p = ⟨2, 1, ['\r']⟩ := Option.some.inj (hp.symm.trans (by decide))
  obtain ⟨e, he, hwhole⟩ := hend 80 (by decide)
  obtain rfl : e = ⟨3, 1, ['\n']⟩ := Option.some.inj (he.symm.trans (by decide))
  obtain ⟨p, q, hp', hq, hbefore⟩ := hcharacters [] "\r\nxü\n".toList second "\n".toList 'é' 'ü' rfl
    rfl (by decide) (by decide) (by decide)
  refine ⟨rfl, rfl, by decide, hp, (hfirst _).2 rfl, (hwhole _).2 rfl,
    horder 2 3 _ _ (by decide) hp (by decide), by decide, by decide, p, q, hp', hq, hbefore, ?_⟩
  exact Option.some.inj (hq.symm.trans (by decide))

end DrawLang
