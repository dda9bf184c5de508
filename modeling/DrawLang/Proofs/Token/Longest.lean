/-
DrawLang/Proofs/Token/Longest.lean

Lexemes are as long as they can be.  The tokens fall into five classes, and where
a lexeme of a class stands is told by the first two characters
(`TokenClass.Matches.at?`), so no two classes meet at one place.  A token that
fits is the longest lexeme of its class there (`Piece.longest_of_fits`), and a
stray character stands where no class has a lexeme (`Text.StartsNothing.at?`).

The length of a number and of a string is not bounded by single characters: a
point belongs to a number if a digit follows, and a quote to a string if another
quote does.
-/
import DrawLang.Proofs.Token.Fits

namespace DrawLang

open Text

/-- The classes of tokens. -/
inductive TokenClass where
  | mark
  | arrow
  | number
  | string
  | word
  deriving DecidableEq

namespace TokenClass

/-- The text is a lexeme of the class in front of this rest.  Only a word minds what
follows: it does not take the hyphen of an arrow. -/
def Matches (s rest : Text) : TokenClass → Prop
  | mark => s = ['('] ∨ s = [')'] ∨ s = [':']
  | arrow => s = ['-', '>']
  | number => IsNumber s
  | string => ∃ v, s = quoted v
  | word => IsWord s ∧ (s.getLast? = some '-' → rest.head? ≠ some '>')

/-- The class of the lexemes in front of a text, if any stand there. -/
def at? : Text → Option TokenClass
  | [] => none
  | c :: t =>
    if c = '(' ∨ c = ')' ∨ c = ':' then some mark
    else if c = '"' then some string
    else if startsWord c then some word
    else if c = '-' ∧ t.head? = some '>' then some arrow
    else if c.isDigit ∨ ((c = '-' ∨ c = '+') ∧ t.head?.any Char.isDigit) then some number
    else none

end TokenClass

/-- The class that tokens of a kind belong to. -/
def TokenKind.class? : TokenKind → Option TokenClass
  | .openParen | .closeParen | .colon => some .mark
  | .arrow => some .arrow
  | .number _ => some .number
  | .string _ => some .string
  | .identifier | .define | .color _ | .builtin _ => some .word
  | .endOfInput => none

/-! ### Where lexemes start -/

namespace TokenClass

theorem at?_of_startsWord {c : Char} {t : Text} (h : startsWord c) : at? (c :: t) = some word := by
  have hne : ∀ d, startsWord d = false → c ≠ d := fun d => Piece.ne_of_class h
  have hmark : ¬ (c = '(' ∨ c = ')' ∨ c = ':') := by
    rintro (rfl | rfl | rfl) <;> exact absurd h (by decide)
  rw [at?, if_neg hmark, if_neg (hne _ (by decide)), if_pos h]

theorem at?_of_digit {c : Char} {t : Text}
    (h : c.isDigit ∨ ((c = '-' ∨ c = '+') ∧ t.head?.any Char.isDigit)) :
    at? (c :: t) = some number := by
  have hclass : c.isDigit ∨ c = '-' ∨ c = '+' := h.imp_right And.left
  have hmark : ¬ (c = '(' ∨ c = ')' ∨ c = ':') := by
    rintro (rfl | rfl | rfl) <;> exact absurd hclass (by decide)
  have hquote : c ≠ '"' := by
    rintro rfl
    exact absurd hclass (by decide)
  have hword : ¬ startsWord c := by
    intro hword
    rcases hclass with hc | rfl | rfl
    · exact Piece.not_isDigit_of_startsWord hword hc
    · exact absurd hword (by decide)
    · exact absurd hword (by decide)
  have harrow : ¬ (c = '-' ∧ t.head? = some '>') := by
    rintro ⟨rfl, hhead⟩
    rw [hhead] at h
    exact absurd h (by decide)
  rw [at?, if_neg hmark, if_neg hquote, if_neg hword, if_neg harrow, if_pos h]

/-- **The first characters tell the class** of a lexeme. -/
theorem Matches.at? {cls : TokenClass} {s rest : Text} (h : cls.Matches s rest) :
    at? (s ++ rest) = some cls := by
  cases cls with
  | mark => rcases h with rfl | rfl | rfl <;> rfl
  | arrow =>
    obtain rfl : s = ['-', '>'] := h
    rfl
  | number =>
    obtain ⟨sign, digits, fraction, rfl, hsign, hdigits, -⟩ := h
    have hhead := hdigits.head? (fraction ++ rest)
    rw [List.append_assoc, List.append_assoc]
    rcases hsign with rfl | rfl | rfl
    · rcases hrest : digits ++ (fraction ++ rest) with - | ⟨c, t⟩
      · rw [hrest] at hhead
        cases hhead
      · rw [hrest] at hhead
        exact at?_of_digit (.inl hhead)
    · exact at?_of_digit (.inr ⟨.inr rfl, hhead⟩)
    · exact at?_of_digit (.inr ⟨.inl rfl, hhead⟩)
  | string =>
    obtain ⟨v, rfl⟩ := h
    rfl
  | word =>
    rcases s with - | ⟨c, w⟩
    · exact h.1.elim
    · exact at?_of_startsWord h.1.1

end TokenClass

/-- Where nothing starts, no class has a lexeme. -/
theorem Text.StartsNothing.at? {c : Char} {rest : Text} (h : StartsNothing c rest) :
    TokenClass.at? (c :: rest) = none := by
  have hne : ∀ d, d ∈ ['(', ')', ':', ' ', '\r', '\t', '\n', ';', '"'] → c ≠ d := by
    rintro d hd rfl
    exact h.mark hd
  have hmark : ¬ (c = '(' ∨ c = ')' ∨ c = ':') := by
    rintro (rfl | rfl | rfl) <;> exact h.mark (by decide)
  rw [TokenClass.at?, if_neg hmark, if_neg (hne _ (by decide)), if_neg h.word,
    if_neg fun harrow => h.arrow harrow.1 harrow.2,
    if_neg (not_or.2 ⟨h.digit, fun hnumber => h.number hnumber.1 hnumber.2⟩)]

/-! ### Where they stop -/

namespace Text

/-- A number that goes on does so with a digit, or with a point and a digit where it has
no point yet. -/
theorem IsNumber.next {s u : Text} {d : Char} (h : IsNumber s) (hlong : IsNumber (s ++ d :: u)) :
    d.isDigit ∨ ('.' ∉ s ∧ d = '.' ∧ u.head?.any Char.isDigit) := by
  obtain ⟨sign, digits, fraction, rfl, hsign, hdigits, hfraction⟩ := h
  obtain ⟨sign', digits', fraction', hs, hsign', hdigits', hfraction'⟩ := hlong
  -- both have the same sign, and behind it the same digits, unless `d` is one of them
  have hbehind : digits ++ (fraction ++ d :: u) = digits' ++ fraction' := by
    obtain ⟨negative, hsplit⟩ := Number.exists_sign hsign (hdigits.head? (fraction ++ d :: u))
    obtain ⟨negative', hsplit'⟩ := Number.exists_sign hsign' (hdigits'.head? fraction')
    rw [List.append_assoc, List.append_assoc] at hs
    rw [List.append_assoc] at hs
    rw [hs, hsplit'] at hsplit
    exact (Prod.mk.inj hsplit).2.symm
  by_cases hd : d.isDigit
  · exact .inl hd
  have hhead : ∀ c ∈ (fraction ++ d :: u).head?, ¬ c.isDigit := by
    rcases hfraction with rfl | ⟨ds, rfl, -⟩
    · rintro c ⟨⟩
      exact hd
    · rintro c ⟨⟩
      decide
  have hrest : fraction ++ d :: u = fraction' := by
    have heq := digitsRest_eq hdigits.2 hhead
    rw [hbehind, digitsRest_eq hdigits'.2 hfraction'.head?] at heq
    exact (Prod.mk.inj heq).2.symm
  right
  rcases hfraction with rfl | ⟨ds, rfl, hds⟩
  · rcases hfraction' with rfl | ⟨es, rfl, hes⟩
    · cases hrest
    · obtain ⟨rfl, rfl⟩ := List.cons.inj hrest
      refine ⟨?_, rfl, ?_⟩
      · rw [List.append_nil, List.mem_append]
        rintro (hmem | hmem)
        · rcases hsign with rfl | rfl | rfl <;> exact absurd hmem (by decide)
        · exact absurd (hdigits.2 _ hmem) (by decide)
      · have hany := hes.head? []
        rwa [List.append_nil] at hany
  -- behind a point there are only digits
  · rcases hfraction' with rfl | ⟨es, rfl, hes⟩
    · cases hrest
    · obtain rfl := (List.cons.inj hrest).2
      exact absurd (hes.2 d (List.mem_append_right _ List.mem_cons_self)) hd

/-- A quote behind doubled ones is doubled as well. -/
theorem head?_of_doubled {v w t : Text} (h : doubled v ++ '"' :: t = doubled w) :
    t.head? = some '"' := by
  induction v generalizing w with
  | nil =>
    rcases w with - | ⟨c, w⟩
    · cases h
    · rw [doubled, doubled] at h
      split at h
      · rw [(List.cons.inj h).2]
        rfl
      · rename_i hc
        exact absurd (List.cons.inj h).1.symm hc
  | cons d v ih =>
    rcases w with - | ⟨c, w⟩
    · exact absurd h (List.append_ne_nil_of_right_ne_nil _ (List.cons_ne_nil _ _))
    · rw [doubled, doubled] at h
      split at h <;> split at h
      · exact ih (List.cons.inj (List.cons.inj h).2).2
      · rename_i hd hc
        exact absurd (List.cons.inj h).1.symm hc
      · rename_i hd hc
        exact absurd (List.cons.inj h).1 hd
      · exact ih (List.cons.inj h).2

/-- A string that goes on does so with a quote. -/
theorem head?_of_quoted {v w t : Text} (h : quoted v ++ t = quoted w) (ht : t ≠ []) :
    t.head? = some '"' := by
  have hquoted : doubled v ++ '"' :: t = doubled w ++ ['"'] := by
    rw [quoted, quoted] at h
    simpa using h
  obtain ⟨init, d, rfl⟩ := List.eq_nil_or_concat t |>.resolve_left ht
  rw [List.concat_eq_append, ← List.cons_append, ← List.append_assoc] at hquoted
  obtain ⟨hw, -⟩ := List.append_inj' hquoted rfl
  rw [List.concat_eq_append, List.head?_append, head?_of_doubled hw, Option.some_or]

end Text

/-! ### The longest lexeme -/

/-- No lexeme of any class is longer where this one stands, and only those of the class
stand there. -/
def TokenClass.Longest (cls : TokenClass) (s rest : Text) : Prop :=
  cls.Matches s rest ∧ ∀ cls' s' rest', s' ++ rest' = s ++ rest → cls'.Matches s' rest' →
    cls' = cls ∧ s'.length ≤ s.length

namespace TokenClass

/-- A lexeme is the longest if no lexeme of its class goes on behind it. -/
theorem Matches.longest {cls : TokenClass} {s rest : Text} (h : cls.Matches s rest)
    (hstop : ∀ d u rest', rest = d :: u ++ rest' → ¬ cls.Matches (s ++ d :: u) rest') :
    cls.Longest s rest := by
  refine ⟨h, fun cls' s' rest' heq hmatch => ?_⟩
  obtain rfl : cls' = cls := by
    have hat := hmatch.at?
    rw [heq, h.at?] at hat
    exact (Option.some.inj hat).symm
  refine ⟨rfl, Nat.le_of_not_lt fun hlt => ?_⟩
  rcases List.append_eq_append_iff.1 heq with ⟨u, rfl, -⟩ | ⟨u, rfl, hrest⟩
  · rw [List.length_append] at hlt
    omega
  · rcases u with - | ⟨d, u⟩
    · rw [List.append_nil] at hlt
      exact Nat.lt_irrefl _ hlt
    · exact hstop d u rest' hrest hmatch

theorem longest_number {s rest : Text} (h : IsNumber s) (hends : EndsNumber s rest) :
    number.Longest s rest := by
  refine Matches.longest h ?_
  rintro d u rest' rfl hmatch
  rcases h.next hmatch with hd | ⟨hpoint, rfl, hu⟩
  · exact hends.1 d rfl hd
  · rcases u with - | ⟨c, u⟩
    · cases hu
    · exact hends.2 hpoint c (u ++ rest') rfl hu

theorem longest_string {v rest : Text} (hends : rest.head? ≠ some '"') :
    string.Longest (quoted v) rest := by
  refine Matches.longest ⟨v, rfl⟩ ?_
  rintro d u rest' rfl ⟨w, hw⟩
  have hhead := head?_of_quoted hw (List.cons_ne_nil d u)
  exact hends hhead

theorem longest_word {s rest : Text} (h : IsWord s) (hends : EndsWord s rest) :
    word.Longest s rest := by
  refine Matches.longest ⟨h, hends.1⟩ ?_
  rintro d u rest' rfl ⟨hlong, hlast⟩
  rcases s with - | ⟨c, w⟩
  · exact h
  have hd : InWord d := hlong.2 d (List.mem_append_right _ List.mem_cons_self)
  refine hends.2 d (u ++ rest') rfl (continuesWord_of_inWord hd ?_)
  -- a hyphen before `>` is neither the last character of the longer word nor inside it
  rintro rfl
  rcases u with - | ⟨e, u⟩
  · exact hlast (by rw [List.getLast?_append, List.getLast?_singleton, Option.some_or])
  · intro he
    obtain rfl : e = '>' := Option.some.inj he
    have hin : InWord '>' :=
      hlong.2 '>' (List.mem_append_right _ (List.mem_cons_of_mem _ List.mem_cons_self))
    exact absurd hin (by decide)

/-- A lexeme of a given length is the longest. -/
theorem longest_of_length {cls : TokenClass} {s rest : Text} {n : Nat} (h : cls.Matches s rest)
    (hlength : ∀ s' rest', cls.Matches s' rest' → s'.length = n) : cls.Longest s rest := by
  refine h.longest fun d u rest' _ hmatch => ?_
  have hlong := hlength _ _ hmatch
  rw [List.length_append, List.length_cons, hlength _ _ h] at hlong
  omega

theorem longest_mark {s rest : Text} (h : mark.Matches s rest) : mark.Longest s rest := by
  refine longest_of_length (n := 1) h ?_
  rintro s' rest' (rfl | rfl | rfl) <;> rfl

theorem longest_arrow {rest : Text} : arrow.Longest ['-', '>'] rest := by
  refine longest_of_length (n := 2) rfl ?_
  rintro s' rest' rfl
  rfl

end TokenClass

/-- **A token that fits is the longest lexeme** at its place. -/
theorem Piece.longest_of_fits {k : TokenKind} {s rest : Text} (h : Piece.Fits ⟨.token k, s⟩ rest) :
    ∃ cls, k.class? = some cls ∧ cls.Longest s rest := by
  cases h with
  | token hspells hends =>
    cases hspells with
    | openParen => exact ⟨.mark, rfl, TokenClass.longest_mark (.inl rfl)⟩
    | closeParen => exact ⟨.mark, rfl, TokenClass.longest_mark (.inr (.inl rfl))⟩
    | colon => exact ⟨.mark, rfl, TokenClass.longest_mark (.inr (.inr rfl))⟩
    | arrow => exact ⟨.arrow, rfl, TokenClass.longest_arrow⟩
    | number h => exact ⟨.number, rfl, TokenClass.longest_number h hends⟩
    | string v => exact ⟨.string, rfl, TokenClass.longest_string hends⟩
    | identifier h => exact ⟨.word, rfl, TokenClass.longest_word h hends⟩
    | keyword h =>
      have hword := TokenKind.ofWord_of_keyword h
      rw [← hword, TokenKind.endsBefore_ofWord] at hends
      refine ⟨.word, ?_, TokenClass.longest_word (isWord_of_keyword h) hends⟩
      have hkind := TokenKind.isKeyword_of_mem h
      cases k with
      | define | color | builtin => rfl
      | openParen | closeParen | colon | arrow | identifier | string | number | endOfInput =>
        exact hkind.elim

end DrawLang
