/-
DrawLang/Proofs/Token/Break.lean

Characters that end what stands in front of them.  A white character goes on with no
number, no word and no string, and neither does a closing parenthesis; with a stray
character they make no token.  So whatever ends at the end of input ends there in front
of such a character as well (`TokenKind.EndsBefore.append_break`), and a lexeme ends in
both places (`Piece.fits_break`).
-/
import DrawLang.Proofs.Token.Local

namespace DrawLang

/-- The white characters. -/
def Text.IsWhite (c : Char) : Prop := c ∈ [' ', '\r', '\t', '\n']

instance (c : Char) : Decidable (Text.IsWhite c) :=
  inferInstanceAs (Decidable (c ∈ [' ', '\r', '\t', '\n']))

/-- Nothing goes on with the character. -/
def Text.Breaks (c : Char) : Prop :=
  ¬ c.isDigit ∧ ¬ Text.InWord c ∧ c ≠ '.' ∧ c ≠ '>' ∧ c ≠ '"'

instance (c : Char) : Decidable (Text.Breaks c) :=
  inferInstanceAs (Decidable (¬ c.isDigit ∧ ¬ Text.InWord c ∧ c ≠ '.' ∧ c ≠ '>' ∧ c ≠ '"'))

namespace Text

variable {c : Char} {s r b : Text}

theorem IsWhite.breaks (h : IsWhite c) : Breaks c := by
  simp only [IsWhite, List.mem_cons, List.not_mem_nil, or_false] at h
  rcases h with rfl | rfl | rfl | rfl <;> decide

theorem EndsNumber.append_break (hc : Breaks c) (h : EndsNumber s r) :
    EndsNumber s (r ++ c :: b) := by
  obtain ⟨hdigit, -, hpoint, -⟩ := hc
  rcases r with - | ⟨d, r⟩
  · refine ⟨?_, fun _ d t hd => ?_⟩
    · rintro d ⟨⟩
      exact hdigit
    · exact absurd (List.cons.inj hd).1 hpoint
  · refine ⟨h.1, fun hs e t ht => ?_⟩
    obtain ⟨rfl, hnext⟩ := List.cons.inj ht
    rcases r with - | ⟨f, r⟩
    · obtain rfl := (List.cons.inj hnext).1
      exact hdigit
    · obtain rfl := (List.cons.inj hnext).1
      exact h.2 hs f r rfl

theorem EndsWord.append_break (hc : Breaks c) (h : EndsWord s r) : EndsWord s (r ++ c :: b) := by
  obtain ⟨-, hword, -, hgreater, -⟩ := hc
  rcases r with - | ⟨d, r⟩
  · refine ⟨fun _ hhead => hgreater (Option.some.inj hhead), ?_⟩
    rintro d t ⟨⟩ hd
    exact hword (inWord_of_continuesWord hd)
  · refine ⟨h.1, ?_⟩
    rintro d t ⟨⟩ hd
    refine h.2 d r rfl (continuesWord_of_inWord (inWord_of_continuesWord hd) ?_)
    rintro rfl hhead
    exact head?_of_continuesWord hd (head?_append_of_head? hhead)

theorem StartsNothing.append_break {d : Char} (hc : Breaks c) (h : StartsNothing d r) :
    StartsNothing d (r ++ c :: b) := by
  obtain ⟨hdigit, -, -, hgreater, -⟩ := hc
  refine ⟨h.mark, h.digit, h.word, fun hd hhead => ?_, fun hd hhead => ?_⟩
  · rcases r with - | ⟨e, r⟩
    · exact hgreater (Option.some.inj hhead)
    · exact h.arrow hd hhead
  · rcases r with - | ⟨e, r⟩
    · exact hdigit hhead
    · exact h.number hd hhead

end Text

namespace TokenKind

variable {k : TokenKind} {c : Char} {s r b : Text}

/-- **What ends at the end of input ends in front of a break.** -/
theorem EndsBefore.append_break (hc : Text.Breaks c) (h : k.EndsBefore s r) :
    k.EndsBefore s (r ++ c :: b) := by
  cases k with
  | number => exact Text.EndsNumber.append_break hc h
  | string =>
    rcases r with - | ⟨d, r⟩
    · exact fun hhead => hc.2.2.2.2 (Option.some.inj hhead)
    · exact h
  | identifier | define | color | builtin => exact Text.EndsWord.append_break hc h
  | openParen | closeParen | colon | arrow | endOfInput => trivial

/-- At the end of input every lexeme ends. -/
theorem endsBefore_nil : k.EndsBefore s [] := by
  cases k with
  | number =>
    refine ⟨fun c hc => ?_, fun _ c t ht => ?_⟩
    · cases hc
    · cases ht
  | string => exact fun hhead => by cases hhead
  | identifier | define | color | builtin =>
    refine ⟨fun _ hhead => ?_, fun c t ht => ?_⟩
    · cases hhead
    · cases ht
  | openParen | closeParen | colon | arrow | endOfInput => trivial

end TokenKind

/-- A lexeme fits at the end of input and in front of a break. -/
theorem Piece.fits_break {k : TokenKind} {s rest : Text} (hrest : ∀ c ∈ rest.head?, Text.Breaks c)
    (h : Spells k s) : Fits ⟨.token k, s⟩ rest := by
  refine .token h ?_
  rcases rest with - | ⟨c, rest⟩
  · exact TokenKind.endsBefore_nil
  · exact TokenKind.endsBefore_nil.append_break (hrest c rfl)

end DrawLang
