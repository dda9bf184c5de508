/-
DrawLang/Proofs/Token/Fits.lean

Which pieces a text is made of.  `Piece.Fits` tells what a piece is and what may
follow it, without cutting: a token has a lexeme of its kind, and what follows
does not go on with it; a comment goes up to the end of its line; a stray
character starts nothing; and a string is left open where all quotes behind the
first one are doubled.

In a text there is exactly one such piece at the front (`Piece.cut_eq_iff`), and so
exactly one row of such pieces makes up the text (`Text.pieces_eq_iff`).
-/
import DrawLang.Proofs.Token.Lexeme
import DrawLang.Proofs.Token.Row
import Mathlib.Data.List.TakeWhile

namespace DrawLang

open Text

/-! ### Where lexemes end -/

namespace Text

/-- What follows a number does not go on with it. -/
def EndsNumber (s rest : Text) : Prop :=
  (∀ c ∈ rest.head?, ¬ c.isDigit) ∧ ('.' ∉ s → ∀ c t, rest = '.' :: c :: t → ¬ c.isDigit)

/-- What follows a word does not go on with it, and no hyphen of the word is half
of an arrow. -/
def EndsWord (s rest : Text) : Prop :=
  (s.getLast? = some '-' → rest.head? ≠ some '>') ∧ ∀ c t, rest = c :: t → ¬ continuesWord c t

/-- Nothing starts with the character in front of this rest. -/
structure StartsNothing (c : Char) (rest : Text) : Prop where
  mark : c ∉ ['(', ')', ':', ' ', '\r', '\t', '\n', ';', '"']
  digit : ¬ c.isDigit
  word : ¬ startsWord c
  arrow : c = '-' → rest.head? ≠ some '>'
  number : c = '-' ∨ c = '+' → ¬ rest.head?.any Char.isDigit

end Text

/-- What follows a lexeme of the kind does not go on with it. -/
def TokenKind.EndsBefore (s rest : Text) : TokenKind → Prop
  | .number _ => EndsNumber s rest
  | .string _ => rest.head? ≠ some '"'
  | .identifier | .define | .color _ | .builtin _ => EndsWord s rest
  | .openParen | .closeParen | .colon | .arrow | .endOfInput => True

theorem TokenKind.endsBefore_ofWord (w : Text) {s rest : Text} :
    (ofWord w).EndsBefore s rest ↔ EndsWord s rest := by
  by_cases hw : ofWord w = .identifier
  · rw [hw]
    rfl
  · have hkind := isKeyword_of_mem (keyword_of_ofWord hw)
    generalize ofWord w = k at hkind ⊢
    cases k with
    | define | color | builtin => rfl
    | openParen | closeParen | colon | arrow | identifier | string | number | endOfInput =>
      exact hkind.elim

/-- The piece is what stands in front of this rest. -/
inductive Piece.Fits : Piece → Text → Prop
  | white {c : Char} {rest : Text} (h : c ∈ [' ', '\r', '\t', '\n']) :
    Piece.Fits ⟨.blank, [c]⟩ rest
  | comment {s rest : Text} (hs : '\n' ∉ s) (hrest : ∀ c ∈ rest.head?, c = '\n') :
    Piece.Fits ⟨.blank, ';' :: s⟩ rest
  | token {k : TokenKind} {s rest : Text} (hspells : Spells k s) (hends : k.EndsBefore s rest) :
    Piece.Fits ⟨.token k, s⟩ rest
  | stray {c : Char} {rest : Text} (h : StartsNothing c rest) : Piece.Fits ⟨.stray, [c]⟩ rest
  | unclosed (v : Text) : Piece.Fits ⟨.unclosed, '"' :: doubled v⟩ []

/-! ### Numbers -/

namespace Text

theorem isDigit_of_mem_digitsRest {t : Text} : ∀ c ∈ (digitsRest t).1, c.isDigit :=
  fun _ hc => List.mem_takeWhile_imp hc

theorem head?_digitsRest (t : Text) : ∀ c ∈ (digitsRest t).2.head?, ¬ c.isDigit := by
  intro c hc
  have hnot := List.head?_dropWhile_not Char.isDigit t
  have hhead : (t.dropWhile Char.isDigit).head? = some c := hc
  rw [hhead] at hnot
  exact Bool.eq_false_iff.1 hnot

theorem isFraction_fractionRest (t : Text) : IsFraction (fractionRest t).1 := by
  unfold fractionRest
  split
  · rename_i c t
    split
    · rename_i hc
      exact .inr ⟨_, rfl, List.cons_ne_nil _ _,
        List.forall_mem_cons.2 ⟨hc, isDigit_of_mem_digitsRest⟩⟩
    · exact .inl rfl
  · exact .inl rfl

/-- What follows a number behind its sign does not go on with it. -/
theorem ends_fractionRest {t : Text} (ht : ∀ c ∈ t.head?, ¬ c.isDigit) :
    (∀ c ∈ (fractionRest t).2.head?, ¬ c.isDigit) ∧
      ('.' ∉ (fractionRest t).1 → ∀ c u, (fractionRest t).2 = '.' :: c :: u → ¬ c.isDigit) := by
  unfold fractionRest
  split
  · rename_i c t
    split
    · exact ⟨head?_digitsRest t, fun h => absurd List.mem_cons_self h⟩
    · rename_i hc
      refine ⟨ht, fun _ d u hu => ?_⟩
      obtain rfl := (List.cons.inj (List.cons.inj hu).2).1
      exact hc
  · rename_i hpoint
    exact ⟨ht, fun _ d u hu => absurd hu (hpoint d u)⟩

/-- **Digits with a fraction or without are split off** where they end. -/
theorem numberRest_eq {ds f rest : Text} (hds : ∀ c ∈ ds, c.isDigit) (hf : IsFraction f)
    (hrest : ∀ c ∈ rest.head?, ¬ c.isDigit)
    (hpoint : f = [] → ∀ c t, rest = '.' :: c :: t → ¬ c.isDigit) :
    numberRest (ds ++ f ++ rest) = (ds ++ f, rest) := by
  have hhead : ∀ c ∈ (f ++ rest).head?, ¬ c.isDigit := by
    rcases f with - | ⟨c, f⟩
    · exact hrest
    · exact hf.head?
  have hfraction : fractionRest (f ++ rest) = (f, rest) := by
    rcases hf with rfl | ⟨es, rfl, hne, hes⟩
    · unfold fractionRest
      split
      · rename_i c t hrest'
        rw [if_neg (hpoint rfl c t hrest')]
        exact congrArg (Prod.mk []) hrest'.symm
      · rfl
    · rcases es with - | ⟨c, es⟩
      · exact absurd rfl hne
      · obtain ⟨hc, hes⟩ := List.forall_mem_cons.1 hes
        rw [List.cons_append, List.cons_append, fractionRest, if_pos hc, digitsRest_eq hes hrest]
  rw [numberRest, List.append_assoc, digitsRest_eq hds hhead]
  simp only [hfraction]

/-! ### Words -/

theorem inWord_of_continuesWord {c : Char} {t : Text} (h : continuesWord c t) : InWord c := by
  simp only [continuesWord, Bool.or_eq_true, Bool.and_eq_true, decide_eq_true_eq] at h
  rcases h with (h | h) | h
  · exact .inl h
  · exact .inr (.inl h)
  · exact .inr (.inr h.1)

/-- A character of words goes on with one, unless it is half of an arrow. -/
theorem continuesWord_of_inWord {c : Char} {t : Text} (h : InWord c)
    (harrow : c = '-' → t.head? ≠ some '>') : continuesWord c t := by
  simp only [continuesWord, Bool.or_eq_true, Bool.and_eq_true, decide_eq_true_eq]
  rcases h with h | h | h
  · exact .inl (.inl h)
  · exact .inl (.inr h)
  · exact .inr ⟨h, harrow h⟩

theorem head?_of_continuesWord {t : Text} (h : continuesWord '-' t) : t.head? ≠ some '>' := by
  simpa [continuesWord] using h

theorem inWord_of_mem_wordRest (t : Text) : ∀ c ∈ (wordRest t).1, InWord c := by
  induction t with
  | nil => exact List.forall_mem_nil _
  | cons c t ih =>
    unfold wordRest
    split
    · rename_i hc
      exact List.forall_mem_cons.2 ⟨inWord_of_continuesWord hc, ih⟩
    · exact List.forall_mem_nil _

/-- What follows a word does not go on with it. -/
theorem ends_wordRest (t : Text) :
    ((wordRest t).1.getLast? = some '-' → (wordRest t).2.head? ≠ some '>') ∧
      ∀ c u, (wordRest t).2 = c :: u → ¬ continuesWord c u := by
  induction t with
  | nil =>
    refine ⟨fun hlast => ?_, fun c u hu => ?_⟩
    · cases hlast
    · cases hu
  | cons c t ih =>
    have happend := wordRest_append t
    unfold wordRest
    split
    · rename_i hc
      refine ⟨fun hlast => ?_, ih.2⟩
      rcases hw : (wordRest t).1 with - | ⟨d, w⟩
      · rw [hw] at hlast happend
        obtain rfl := Option.some.inj hlast
        rw [List.nil_append] at happend
        rw [happend]
        exact head?_of_continuesWord hc
      · rw [hw, List.getLast?_cons_cons, ← hw] at hlast
        exact ih.1 hlast
    · rename_i hc
      refine ⟨fun hlast => ?_, fun d u hu => ?_⟩
      · cases hlast
      · obtain ⟨rfl, rfl⟩ := List.cons.inj hu
        exact hc

/-- **The rest of a word is split off** where it ends. -/
theorem wordRest_eq {w rest : Text} (hw : ∀ c ∈ w, InWord c) (hends : EndsWord w rest) :
    wordRest (w ++ rest) = (w, rest) := by
  induction w with
  | nil =>
    rcases rest with - | ⟨c, rest⟩
    · rfl
    · rw [List.nil_append, wordRest, if_neg (hends.2 c rest rfl)]
  | cons c w ih =>
    obtain ⟨hc, htail⟩ := List.forall_mem_cons.1 hw
    have harrow : c = '-' → (w ++ rest).head? ≠ some '>' := by
      rintro rfl
      rcases w with - | ⟨d, w⟩
      · exact hends.1 rfl
      · intro hd
        obtain rfl : d = '>' := Option.some.inj hd
        exact absurd (htail '>' List.mem_cons_self) (by decide)
    have hends' : EndsWord w rest := by
      refine ⟨fun hlast => hends.1 ?_, hends.2⟩
      rw [List.getLast?_cons, hlast]
      rfl
    rw [List.cons_append, wordRest, if_pos (continuesWord_of_inWord hc harrow), ih htail hends']

/-! ### Strings -/

/-- Behind the closing quote there is no other one. -/
theorem head?_of_closing? {t s rest : Text} (h : closing? t = some (s, rest)) :
    rest.head? ≠ some '"' := by
  fun_induction closing? t generalizing s with
  | case1 t ih =>
    obtain ⟨⟨v, w⟩, hv, e⟩ := Option.map_eq_some_iff.1 h
    obtain ⟨-, rfl⟩ := Prod.mk.inj e
    exact ih hv
  | case2 t hpair =>
    obtain ⟨-, rfl⟩ := Prod.mk.inj (Option.some.inj h)
    intro hhead
    rcases t with - | ⟨d, t⟩
    · cases hhead
    · obtain rfl := Option.some.inj hhead
      exact hpair t rfl rfl
  | case3 c t hpair hc ih =>
    obtain ⟨⟨v, w⟩, hv, e⟩ := Option.map_eq_some_iff.1 h
    obtain ⟨-, rfl⟩ := Prod.mk.inj e
    exact ih hv
  | case4 => cases h

/-- **A string is left open exactly where all quotes are doubled.** -/
theorem closing?_eq_none_iff {t : Text} : closing? t = none ↔ ∃ v, t = doubled v := by
  constructor
  · intro h
    fun_induction closing? t with
    | case1 t ih =>
      obtain ⟨v, rfl⟩ := ih (Option.map_eq_none_iff.1 h)
      exact ⟨'"' :: v, by simp [doubled]⟩
    | case2 => cases h
    | case3 c t _ hc ih =>
      obtain ⟨v, rfl⟩ := ih (Option.map_eq_none_iff.1 h)
      exact ⟨c :: v, by simp [doubled, hc]⟩
    | case4 => exact ⟨[], rfl⟩
  · rintro ⟨v, rfl⟩
    induction v with
    | nil => rfl
    | cons c v ih =>
      by_cases hc : c = '"'
      · simp [doubled, hc, closing?, ih]
      · simp [doubled, hc, closing?_cons_of_ne hc, ih]

end Text

/-! ### One piece -/

namespace Piece

theorem fits_arrow {t : Text} (h : t.head? = some '>') :
    Fits ⟨.token .arrow, '-' :: t.take 1⟩ (t.drop 1) := by
  rcases t with - | ⟨d, t⟩
  · cases h
  · obtain rfl := Option.some.inj h
    exact .token .arrow trivial

/-- A sign, if there is one, and a digit are in front of the rest of a number. -/
theorem fits_signed {sign t : Text} (hsign : IsSign sign) {c : Char} (hc : c.isDigit) :
    (number (sign ++ c :: (numberRest t).1)).Fits (numberRest t).2 := by
  have hform : IsNumber (sign ++ c :: (numberRest t).1) :=
    ⟨sign, c :: (digitsRest t).1, (fractionRest (digitsRest t).2).1,
      by simp [numberRest], hsign, ⟨List.cons_ne_nil _ _,
        List.forall_mem_cons.2 ⟨hc, isDigit_of_mem_digitsRest⟩⟩, isFraction_fractionRest _⟩
  obtain ⟨n, hn⟩ := Option.isSome_iff_exists.1 (Number.isSome_ofText? hform)
  rw [number, hn]
  obtain ⟨hdigit, hpoint⟩ := ends_fractionRest (head?_digitsRest t)
  refine .token (.number hform hn) ⟨hdigit, fun hmem => hpoint fun hin => hmem ?_⟩
  simp only [numberRest, List.mem_append, List.mem_cons]
  exact .inr (.inr (.inr hin))

theorem fits_number {c : Char} {t : Text}
    (h : c.isDigit ∨ ((c = '-' ∨ c = '+') ∧ t.head?.any Char.isDigit)) :
    (number (c :: (numberRest t).1)).Fits (numberRest t).2 := by
  by_cases hc : c.isDigit
  · exact fits_signed (.inl rfl) hc
  obtain ⟨hsign, hhead⟩ := h.resolve_left hc
  rcases t with - | ⟨d, t⟩
  · cases hhead
  have hd : d.isDigit := hhead
  have hrest : numberRest (d :: t) = (d :: (numberRest t).1, (numberRest t).2) := by
    simp only [numberRest, digitsRest, List.takeWhile_cons_of_pos hd,
      List.dropWhile_cons_of_pos hd, List.cons_append]
  have hsign' : IsSign [c] := by
    rcases hsign with rfl | rfl
    · exact .inr (.inr rfl)
    · exact .inr (.inl rfl)
  rw [hrest]
  exact fits_signed hsign' hd

theorem fits_comment (t : Text) :
    Fits ⟨.blank, ';' :: t.takeWhile (· ≠ '\n')⟩ (t.dropWhile (· ≠ '\n')) := by
  refine .comment (fun hmem => ?_) fun d hd => ?_
  · exact absurd (List.mem_takeWhile_imp hmem) (by decide)
  · have hnot := List.head?_dropWhile_not (fun x => decide (x ≠ '\n')) t
    have hhead : (t.dropWhile fun x => decide (x ≠ '\n')).head? = some d := hd
    rw [hhead] at hnot
    simpa using hnot

theorem cut_quote {t : Text} :
    cut '"' t = match closing? t with
      | some (v, rest) => (⟨.token (.string v), '"' :: doubled v ++ ['"']⟩, rest)
      | none => (⟨.unclosed, '"' :: t⟩, []) :=
  rfl

theorem fits_quote (t : Text) : (cut '"' t).1.Fits (cut '"' t).2 := by
  rw [cut_quote]
  rcases hclosing : closing? t with - | ⟨v, rest⟩
  · obtain ⟨v, rfl⟩ := closing?_eq_none_iff.1 hclosing
    exact .unclosed v
  · exact .token (.string v) (head?_of_closing? hclosing)

theorem fits_word {c : Char} {t : Text} (hc : startsWord c) :
    Fits ⟨.token (.ofWord (c :: (wordRest t).1)), c :: (wordRest t).1⟩ (wordRest t).2 := by
  have hword : IsWord (c :: (wordRest t).1) := ⟨hc, inWord_of_mem_wordRest t⟩
  obtain ⟨hlast, hnext⟩ := ends_wordRest t
  refine .token (TokenKind.spells_ofWord hword)
    ((TokenKind.endsBefore_ofWord _).2 ⟨fun hhyphen => ?_, hnext⟩)
  rcases hw : (wordRest t).1 with - | ⟨d, w⟩
  -- a word does not start with a hyphen, so one at its end is behind that
  · rw [hw] at hhyphen
    obtain rfl := Option.some.inj hhyphen
    exact absurd hc (by decide)
  · rw [hw, List.getLast?_cons_cons, ← hw] at hhyphen
    exact hlast hhyphen

/-- **The piece at the front of a text fits.** -/
theorem fits_cut (c : Char) (t : Text) : (cut c t).1.Fits (cut c t).2 := by
  by_cases hquote : c = '"'
  · subst hquote
    exact fits_quote t
  unfold cut
  split_ifs with hopen hclose hcolon harrow hnumber hwhite hcomment hword
  · subst hopen
    exact .token .openParen trivial
  · subst hclose
    exact .token .closeParen trivial
  · subst hcolon
    exact .token .colon trivial
  · obtain ⟨rfl, hhead⟩ := harrow
    exact fits_arrow hhead
  · exact fits_number hnumber
  · exact .white (by simpa using hwhite)
  · subst hcomment
    exact fits_comment t
  · exact fits_word hword
  · refine .stray ⟨?_, fun hc => hnumber (.inl hc), hword, fun hc hhead => harrow ⟨hc, hhead⟩,
      fun hc hhead => hnumber (.inr ⟨hc, hhead⟩)⟩
    simp only [not_or] at hwhite
    simp only [List.mem_cons, List.not_mem_nil, or_false, not_or]
    obtain ⟨hspace, hreturn, htab, hfeed⟩ := hwhite
    exact ⟨hopen, hclose, hcolon, hspace, hreturn, htab, hfeed, hcomment, hquote⟩

theorem ne_of_class {p : Char → Bool} {c d : Char} (hc : p c) (hd : p d = false) : c ≠ d := by
  rintro rfl
  exact absurd (hc.symm.trans hd) nofun

theorem not_isDigit_of_startsWord {c : Char} (h : startsWord c) : ¬ c.isDigit := by
  have hclass : (65 ≤ c.val ∧ c.val ≤ 90) ∨ (97 ≤ c.val ∧ c.val ≤ 122) ∨ c = '_' := by
    rw [startsWord, Bool.or_eq_true, decide_eq_true_eq] at h
    rcases h with h | h
    · rcases Bool.or_eq_true_iff.1 h with hupper | hlower
      · exact .inl (of_decide_eq_true hupper)
      · obtain ⟨hlow, hhigh⟩ := Bool.and_eq_true_iff.1 hlower
        exact .inr (.inl ⟨of_decide_eq_true hlow, of_decide_eq_true hhigh⟩)
    · exact .inr (.inr h)
  intro hdigit
  have hhigh : c.val ≤ 57 := of_decide_eq_true (Bool.and_eq_true_iff.1 hdigit).2
  rcases hclass with hc | hc | rfl
  · exact absurd (UInt32.le_trans hc.1 hhigh) (by decide)
  · exact absurd (UInt32.le_trans hc.1 hhigh) (by decide)
  · exact absurd hhigh (by decide)

theorem cut_word {c : Char} {w rest : Text} (h : IsWord (c :: w)) (hends : EndsWord (c :: w) rest) :
    cut c (w ++ rest) = (⟨.token (.ofWord (c :: w)), c :: w⟩, rest) := by
  obtain ⟨hc, hw⟩ := h
  have hne : ∀ d, startsWord d = false → c ≠ d := fun d => ne_of_class hc
  have hends' : EndsWord w rest := by
    refine ⟨fun hlast => hends.1 ?_, hends.2⟩
    rw [List.getLast?_cons, hlast]
    rfl
  have hnumber : ¬ (c.isDigit ∨ ((c = '-' ∨ c = '+') ∧ (w ++ rest).head?.any Char.isDigit)) := by
    rintro (hd | ⟨rfl | rfl, -⟩)
    · exact not_isDigit_of_startsWord hc hd
    · exact absurd hc (by decide)
    · exact absurd hc (by decide)
  have hwhite : ¬ (c = ' ' ∨ c = '\r' ∨ c = '\t' ∨ c = '\n') := by
    rintro (rfl | rfl | rfl | rfl) <;> exact absurd hc (by decide)
  rw [cut, if_neg (hne _ (by decide)), if_neg (hne _ (by decide)), if_neg (hne _ (by decide)),
    if_neg fun h => hne '-' (by decide) h.1, if_neg hnumber, if_neg hwhite,
    if_neg (hne _ (by decide)), if_neg (hne _ (by decide)), if_pos hc, wordRest_eq hw hends']

/-- A number starts with a digit, or with a sign in front of one. -/
theorem cut_of_digit {c : Char} {t : Text}
    (h : c.isDigit ∨ ((c = '-' ∨ c = '+') ∧ t.head?.any Char.isDigit)) :
    cut c t = (number (c :: (numberRest t).1), (numberRest t).2) := by
  have hne : ∀ d, d.isDigit = false → d ≠ '-' → d ≠ '+' → c ≠ d := by
    rintro d hd hminus hplus rfl
    rcases h with h | ⟨h | h, -⟩
    · exact absurd (h.symm.trans hd) nofun
    · exact hminus h
    · exact hplus h
  have harrow : ¬ (c = '-' ∧ t.head? = some '>') := by
    rintro ⟨rfl, hhead⟩
    rcases h with h | ⟨-, h⟩
    · exact absurd h (by decide)
    · rw [hhead] at h
      exact absurd h (by decide)
  rw [cut, if_neg (hne _ (by decide) (by decide) (by decide)),
    if_neg (hne _ (by decide) (by decide) (by decide)),
    if_neg (hne _ (by decide) (by decide) (by decide)), if_neg harrow, if_pos h]

theorem cut_number {c : Char} {s rest : Text} (h : IsNumber (c :: s))
    (hends : EndsNumber (c :: s) rest) : cut c (s ++ rest) = (number (c :: s), rest) := by
  obtain ⟨sign, digits, fraction, hs, hsign, hdigits, hfraction⟩ := h
  have hpoint : fraction = [] → ∀ d t, rest = '.' :: d :: t → ¬ d.isDigit := by
    rintro rfl
    refine hends.2 fun hmem => ?_
    rw [hs, List.append_nil, List.mem_append] at hmem
    rcases hmem with hmem | hmem
    · rcases hsign with rfl | rfl | rfl <;> exact absurd hmem (by decide)
    · exact absurd (hdigits.2 _ hmem) (by decide)
  have hsplit : (c.isDigit ∨ ((c = '-' ∨ c = '+') ∧ (s ++ rest).head?.any Char.isDigit)) ∧
      numberRest (s ++ rest) = (s, rest) := by
    rcases hsign with rfl | hsign
    -- without a sign the first character is a digit
    · rcases digits with - | ⟨d, ds⟩
      · exact absurd rfl hdigits.1
      · obtain ⟨hd, hds⟩ := List.forall_mem_cons.1 hdigits.2
        obtain ⟨rfl, rfl⟩ := List.cons.inj hs
        exact ⟨.inl hd, numberRest_eq hds hfraction hends.1 hpoint⟩
    · have hrest := numberRest_eq hdigits.2 hfraction hends.1 hpoint
      have hhead := hdigits.head? (fraction ++ rest)
      rw [← List.append_assoc] at hhead
      rcases hsign with rfl | rfl
      · obtain ⟨rfl, rfl⟩ := List.cons.inj hs
        exact ⟨.inr ⟨.inr rfl, hhead⟩, hrest⟩
      · obtain ⟨rfl, rfl⟩ := List.cons.inj hs
        exact ⟨.inr ⟨.inl rfl, hhead⟩, hrest⟩
  rw [cut_of_digit hsplit.1, hsplit.2]

theorem cut_comment {s rest : Text} (hs : '\n' ∉ s) (hrest : ∀ c ∈ rest.head?, c = '\n') :
    cut ';' (s ++ rest) = (⟨.blank, ';' :: s⟩, rest) := by
  have htake : ∀ d ∈ s, decide (d ≠ '\n') = true := by
    rintro d hd
    exact decide_eq_true fun h => hs (h ▸ hd)
  show ((⟨.blank, ';' :: (s ++ rest).takeWhile (· ≠ '\n')⟩ : Piece),
    (s ++ rest).dropWhile (· ≠ '\n')) = _
  rw [List.takeWhile_append_of_pos htake, List.dropWhile_append_of_pos htake]
  rcases rest with - | ⟨d, rest⟩
  · rw [List.takeWhile_nil, List.dropWhile_nil, List.append_nil]
  · obtain rfl := hrest d rfl
    rw [List.takeWhile_cons_of_neg (by decide), List.dropWhile_cons_of_neg (by decide),
      List.append_nil]

theorem cut_string (v : Text) {rest : Text} (hrest : rest.head? ≠ some '"') :
    cut '"' (doubled v ++ ['"'] ++ rest)
      = (⟨.token (.string v), '"' :: doubled v ++ ['"']⟩, rest) := by
  have hread : closing? (doubled v ++ ['"'] ++ rest) = some (v, rest) := by
    rw [List.append_assoc]
    exact closing?_quoted v hrest
  rw [cut_quote, hread]

theorem cut_stray {c : Char} {rest : Text} (h : StartsNothing c rest) :
    cut c rest = (⟨.stray, [c]⟩, rest) := by
  obtain ⟨hmark, hdigit, hword, harrow, hnumber⟩ := h
  simp only [List.mem_cons, List.not_mem_nil, or_false, not_or] at hmark
  obtain ⟨hopen, hclose, hcolon, hspace, hreturn, htab, hfeed, hcomment, hquote⟩ := hmark
  rw [cut, if_neg hopen, if_neg hclose, if_neg hcolon,
    if_neg fun h => harrow h.1 h.2, if_neg (not_or.2 ⟨hdigit, fun h => hnumber h.1 h.2⟩),
    if_neg (by simp only [hspace, hreturn, htab, hfeed, or_self, not_false_eq_true]),
    if_neg hcomment, if_neg hquote, if_neg hword]

/-- **What fits is cut off.** -/
theorem cut_of_fits {k : PieceKind} {c : Char} {s rest : Text} (h : Fits ⟨k, c :: s⟩ rest) :
    cut c (s ++ rest) = (⟨k, c :: s⟩, rest) := by
  cases h with
  | white hc =>
    simp only [List.mem_cons, List.not_mem_nil, or_false] at hc
    rcases hc with rfl | rfl | rfl | rfl <;> rfl
  | comment hs hrest => exact cut_comment hs hrest
  | token hspells hends =>
    cases hspells with
    | openParen => rfl
    | closeParen => rfl
    | colon => rfl
    | arrow => rfl
    | number h hn =>
      rw [cut_number h hends, number, hn]
      rfl
    | string v => exact cut_string v hends
    | keyword h =>
      have hword := TokenKind.ofWord_of_keyword h
      rw [← hword, TokenKind.endsBefore_ofWord] at hends
      rw [cut_word (isWord_of_keyword h) hends, hword]
    | identifier h hw => rw [cut_word h hends, TokenKind.ofWord_of_not_keyword hw]
  | stray h => exact cut_stray h
  | unclosed v =>
    rw [List.append_nil, cut_quote, closing?_eq_none_iff.2 ⟨v, rfl⟩]

theorem Fits.text_ne_nil {p : Piece} {rest : Text} (h : p.Fits rest) : p.text ≠ [] := by
  cases h with
  | white | comment | stray | unclosed => exact List.cons_ne_nil _ _
  | token hspells => exact hspells.ne_nil

/-- **There is exactly one piece at the front of a text.** -/
theorem cut_eq_iff {c : Char} {t rest : Text} {p : Piece} :
    cut c t = (p, rest) ↔ p.text ++ rest = c :: t ∧ p.Fits rest := by
  constructor
  · intro h
    have happend := cut_append c t
    have hfits := fits_cut c t
    rw [h] at happend hfits
    exact ⟨happend, hfits⟩
  · rintro ⟨hp, hfits⟩
    obtain ⟨k, - | ⟨d, s⟩⟩ := p
    · exact absurd rfl hfits.text_ne_nil
    · obtain ⟨rfl, rfl⟩ := List.cons.inj hp
      exact cut_of_fits hfits

end Piece

/-! ### All pieces -/

/-- Each piece fits in front of those behind it. -/
def Piece.Tiled : List Piece → Prop
  | [] => True
  | p :: ps => p.Fits (texts ps) ∧ Tiled ps

namespace Text

theorem tiled_pieces (t : Text) : Piece.Tiled t.pieces := by
  fun_induction pieces t with
  | case1 => trivial
  | case2 c t ih =>
    refine ⟨?_, ih⟩
    rw [Piece.texts_pieces]
    exact Piece.fits_cut c t

/-- **A text has exactly one row of pieces that fit.** -/
theorem pieces_eq_iff {t : Text} {ps : List Piece} :
    t.pieces = ps ↔ Piece.texts ps = t ∧ Piece.Tiled ps := by
  constructor
  · rintro rfl
    exact ⟨Piece.texts_pieces t, tiled_pieces t⟩
  · rintro ⟨rfl, htiled⟩
    induction ps with
    | nil => exact pieces_nil
    | cons p ps ih =>
      obtain ⟨hfits, htiled⟩ := htiled
      rcases htext : p.text with - | ⟨c, s⟩
      · exact absurd htext hfits.text_ne_nil
      · have hcut : Piece.cut c (s ++ Piece.texts ps) = (p, Piece.texts ps) :=
          Piece.cut_eq_iff.2 ⟨by rw [htext, List.cons_append], hfits⟩
        rw [Piece.texts_cons, htext, List.cons_append, pieces_cons, hcut, ih htiled]

end Text

end DrawLang
