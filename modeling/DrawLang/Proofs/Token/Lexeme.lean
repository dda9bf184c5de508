/-
DrawLang/Proofs/Token/Lexeme.lean

The lexical grammar, told without any scanning.

    number  →  ( "+" | "-" )?  digit+  ( "."  digit+ )?
    string  →  '"'  ( any other character  |  '""' )*  '"'
    word    →  ( letter | "_" )  ( letter | digit | "_" | "-" )*

Besides these there are the parentheses, the colon and the arrow.  A word in the
table of keywords stands for what the table says, and any other word is an
identifier.  `Spells` puts this together: it relates a kind of token, with what
the token stands for, to its lexemes.

Main results: the kind of a word is the one that the table has
(`TokenKind.spells_ofWord`), and every lexeme of a
number can be read (`Number.isSome_ofText?`).
-/
import DrawLang.Token.Piece
import Mathlib.Data.List.Basic

namespace DrawLang

/-! ### Forms -/

namespace Text

/-- Digits, at least one of them. -/
def IsDigits (t : Text) : Prop := t ≠ [] ∧ ∀ c ∈ t, c.isDigit

/-- A sign, or nothing. -/
def IsSign (t : Text) : Prop := t = [] ∨ t = ['+'] ∨ t = ['-']

/-- A point with digits behind it, or nothing. -/
def IsFraction (t : Text) : Prop := t = [] ∨ ∃ ds, t = '.' :: ds ∧ IsDigits ds

/-- The form of a number. -/
def IsNumber (t : Text) : Prop :=
  ∃ sign digits fraction, t = sign ++ digits ++ fraction ∧ IsSign sign ∧ IsDigits digits ∧
    IsFraction fraction

/-- A digit, a sign or a point. -/
def inNumber (c : Char) : Bool := c.isDigit || ['+', '-', '.'].contains c

theorem inNumber_of_isDigit {c : Char} (h : c.isDigit) : inNumber c :=
  Bool.or_eq_true_iff.2 (.inl h)

/-- Can a word go on with this character, whatever follows? -/
def InWord (c : Char) : Prop := c.isAlphanum ∨ c = '_' ∨ c = '-'

instance (c : Char) : Decidable (InWord c) :=
  inferInstanceAs (Decidable (c.isAlphanum ∨ c = '_' ∨ c = '-'))

/-- The form of a word. -/
def IsWord : Text → Prop
  | [] => False
  | c :: w => startsWord c ∧ ∀ d ∈ w, InWord d

instance : (t : Text) → Decidable (IsWord t)
  | [] => isFalse id
  -- goes through the characters of the word, not through all that there are
  | c :: w => @instDecidableAnd (startsWord c) _ inferInstance (List.decidableBAll InWord w)

end Text

open Text

/-! ### Keywords -/

/-- The keywords and what they stand for. -/
def keywords : List (Text × TokenKind) :=
  [("def".toList, .define),
    ("green".toList, .color .green), ("blue".toList, .color .blue),
    ("yellow".toList, .color .yellow), ("red".toList, .color .red),
    ("purple".toList, .color .purple), ("grey".toList, .color .grey),
    ("black".toList, .color .black), ("white".toList, .color .white),
    ("orange".toList, .color .orange),
    ("range".toList, .builtin .range), ("square".toList, .builtin .square),
    ("parallelogram".toList, .builtin .parallelogram), ("merge".toList, .builtin .merge),
    ("vector".toList, .builtin .vector),
    ("concat".toList, .builtin .concat), ("c".toList, .builtin .concat),
    ("repeat".toList, .builtin .repeat), ("r".toList, .builtin .repeat),
    ("slice".toList, .builtin .slice), ("s".toList, .builtin .slice),
    ("length".toList, .builtin .length), ("ada-lovelace".toList, .builtin .adaLovelace)]

/-- Keywords are words. -/
theorem isWord_of_keyword {w : Text} {k : TokenKind} (h : (w, k) ∈ keywords) : IsWord w := by
  have hall : ∀ e ∈ keywords, IsWord e.1 := by decide
  exact hall (w, k) h

/-- The kind of a keyword is the one in the table. -/
theorem TokenKind.ofWord_of_keyword {w : Text} {k : TokenKind} (h : (w, k) ∈ keywords) :
    ofWord w = k := by
  have hall : ∀ e ∈ keywords, ofWord e.1 = e.2 := by decide
  exact hall (w, k) h

theorem Color.keyword (c : Color) : (c.name, TokenKind.color c) ∈ keywords := by
  cases c <;> decide

theorem Builtin.keyword (b : Builtin) : (b.name, TokenKind.builtin b) ∈ keywords := by
  cases b <;> decide

theorem Builtin.keyword_of_alias {w : Text} {b : Builtin} (h : alias? w = some b) :
    (w, TokenKind.builtin b) ∈ keywords := by
  unfold alias? at h
  split at h
  · rename_i hw
    obtain rfl := Option.some.inj h
    subst hw
    decide
  split at h
  · rename_i hw
    obtain rfl := Option.some.inj h
    subst hw
    decide
  split at h
  · rename_i hw
    obtain rfl := Option.some.inj h
    subst hw
    decide
  · cases h

/-- A word whose kind is not that of an identifier is in the table. -/
theorem TokenKind.keyword_of_ofWord {w : Text} (h : ofWord w ≠ .identifier) :
    (w, ofWord w) ∈ keywords := by
  unfold ofWord at h ⊢
  split
  · rename_i hw
    subst hw
    decide
  rename_i hw
  rw [if_neg hw] at h
  rcases hcolor : Color.named? w with - | c
  · rw [hcolor] at h
    rcases hnamed : Builtin.named? w with - | b
    · rw [hnamed] at h
      rcases halias : Builtin.alias? w with - | b
      · rw [halias] at h
        exact absurd rfl h
      · exact Builtin.keyword_of_alias halias
    · have hb := List.find?_some hnamed
      simp only [decide_eq_true_eq] at hb
      subst hb
      exact b.keyword
  · have hc := List.find?_some hcolor
    simp only [decide_eq_true_eq] at hc
    subst hc
    exact c.keyword

/-! ### Lexemes -/

/-- The lexemes of each kind of token. -/
inductive Spells : TokenKind → Text → Prop
  | openParen : Spells .openParen ['(']
  | closeParen : Spells .closeParen [')']
  | colon : Spells .colon [':']
  | arrow : Spells .arrow ['-', '>']
  | number {s : Text} {n : Number} (h : IsNumber s) (hn : Number.ofText? s = some n) :
    Spells (.number n) s
  | string (v : Text) : Spells (.string v) (quoted v)
  | keyword {w : Text} {k : TokenKind} (h : (w, k) ∈ keywords) : Spells k w
  | identifier {w : Text} (h : IsWord w) (hw : ∀ k, (w, k) ∉ keywords) : Spells .identifier w

theorem Text.IsNumber.ne_nil {s : Text} (h : IsNumber s) : s ≠ [] := by
  obtain ⟨sign, digits, fraction, rfl, -, ⟨hne, -⟩, -⟩ := h
  intro hnil
  rw [List.append_eq_nil_iff, List.append_eq_nil_iff] at hnil
  exact hne hnil.1.2

/-- A number has a digit. -/
theorem Text.IsNumber.any_isDigit {s : Text} (h : IsNumber s) : s.any Char.isDigit := by
  obtain ⟨sign, digits, fraction, rfl, -, ⟨hne, hdigits⟩, -⟩ := h
  obtain ⟨c, digits, rfl⟩ := List.exists_cons_of_ne_nil hne
  exact List.any_eq_true.2 ⟨c, by simp, hdigits c List.mem_cons_self⟩

/-- A number consists of digits, signs and points. -/
theorem Text.IsNumber.inNumber_of_mem {s : Text} (h : IsNumber s) {c : Char} (hc : c ∈ s) :
    inNumber c := by
  obtain ⟨sign, digits, fraction, rfl, hsign, hdigits, hfraction⟩ := h
  rw [List.mem_append, List.mem_append] at hc
  rcases hc with (hc | hc) | hc
  · rcases hsign with rfl | rfl | rfl
    · cases hc
    · exact List.mem_singleton.1 hc ▸ rfl
    · exact List.mem_singleton.1 hc ▸ rfl
  · exact inNumber_of_isDigit (hdigits.2 c hc)
  · rcases hfraction with rfl | ⟨ds, rfl, hds⟩
    · cases hc
    · rcases List.mem_cons.1 hc with rfl | hc
      · rfl
      · exact inNumber_of_isDigit (hds.2 c hc)

/-- A number has none of some characters that are no digits, signs and points. -/
theorem Text.IsNumber.forall_not_mem {s marks : Text} (h : IsNumber s)
    (hmarks : ¬ marks.any inNumber) : ∀ c ∈ s, c ∉ marks :=
  fun _ hc hmark => hmarks (List.any_eq_true.2 ⟨_, hmark, h.inNumber_of_mem hc⟩)

theorem Text.IsWord.ne_nil {s : Text} (h : IsWord s) : s ≠ [] := by
  rintro rfl
  exact h

theorem Spells.ne_nil {k : TokenKind} {s : Text} (h : Spells k s) : s ≠ [] := by
  cases h with
  | openParen | closeParen | colon | arrow | string => exact List.cons_ne_nil _ _
  | number h => exact h.ne_nil
  | keyword h => exact (isWord_of_keyword h).ne_nil
  | identifier h => exact h.ne_nil

namespace TokenKind

/-- Is this the kind of a keyword? -/
def IsKeyword : TokenKind → Prop
  | define | color _ | builtin _ => True
  | _ => False

instance : (k : TokenKind) → Decidable k.IsKeyword
  | define | color _ | builtin _ => isTrue trivial
  | openParen | closeParen | colon | arrow | identifier | string _ | number _ | endOfInput =>
    isFalse id

theorem isKeyword_of_mem {w : Text} {k : TokenKind} (h : (w, k) ∈ keywords) : k.IsKeyword := by
  have hall : ∀ e ∈ keywords, e.2.IsKeyword := by decide
  exact hall (w, k) h

/-- **Each word spells its kind.** -/
theorem spells_ofWord {w : Text} (h : IsWord w) : Spells (ofWord w) w := by
  by_cases hw : ofWord w = .identifier
  · rw [hw]
    refine .identifier h fun k hk => ?_
    have hkind := isKeyword_of_mem hk
    rw [← ofWord_of_keyword hk, hw] at hkind
    exact hkind
  · exact .keyword (keyword_of_ofWord hw)

theorem ofWord_of_not_keyword {w : Text} (h : ∀ k, (w, k) ∉ keywords) :
    ofWord w = .identifier := by
  by_contra hw
  exact h _ (keyword_of_ofWord hw)

end TokenKind

/-! ### Reading numbers -/

namespace Text

/-- Digits end where no digit follows. -/
theorem digitsRest_eq {ds rest : Text} (h : ∀ c ∈ ds, c.isDigit)
    (hrest : ∀ c ∈ rest.head?, ¬ c.isDigit) : digitsRest (ds ++ rest) = (ds, rest) := by
  have hstop : rest.takeWhile Char.isDigit = [] ∧ rest.dropWhile Char.isDigit = rest := by
    rcases rest with - | ⟨c, rest⟩
    · exact ⟨rfl, rfl⟩
    · have hc := hrest c rfl
      exact ⟨List.takeWhile_cons_of_neg hc, List.dropWhile_cons_of_neg hc⟩
  rw [digitsRest, List.takeWhile_append_of_pos h, List.dropWhile_append_of_pos h, hstop.1, hstop.2,
    List.append_nil]

theorem IsDigits.head? {ds : Text} (h : IsDigits ds) (t : Text) :
    (ds ++ t).head?.any Char.isDigit := by
  obtain ⟨hne, hds⟩ := h
  rcases ds with - | ⟨c, ds⟩
  · exact absurd rfl hne
  · exact hds c List.mem_cons_self

theorem IsFraction.head? {t : Text} (h : IsFraction t) : ∀ c ∈ t.head?, ¬ c.isDigit := by
  rcases h with rfl | ⟨ds, rfl, -⟩
  · exact nofun
  · rintro c ⟨⟩
    decide

end Text

namespace Number

/-- A sign in front of a digit is taken off. -/
theorem exists_sign {s t : Text} (hs : IsSign s) (ht : t.head?.any Char.isDigit) :
    ∃ negative, Decimal.sign (s ++ t) = (negative, t) := by
  rcases hs with rfl | rfl | rfl
  · refine ⟨false, ?_⟩
    rw [List.nil_append]
    unfold Decimal.sign
    split
    · cases ht
    · cases ht
    · rfl
  · exact ⟨false, rfl⟩
  · exact ⟨true, rfl⟩

theorem named?_of_digit {t : Text} (ht : t.head?.any Char.isDigit) :
    named? (t.map Char.toLower) = none := by
  rcases t with - | ⟨c, t⟩
  · cases ht
  · have hc : c.isDigit := ht
    have hlower : c.toLower = c := by
      rw [Char.isDigit, Bool.and_eq_true, decide_eq_true_eq, decide_eq_true_eq] at hc
      exact dif_neg fun hupper => by grind
    have hn : c ≠ 'n' := fun h => absurd (h ▸ hc) (by decide)
    have hi : c ≠ 'i' := fun h => absurd (h ▸ hc) (by decide)
    simp [named?, hlower, hn, hi]

/-- **Every lexeme of a number can be read.** -/
theorem isSome_ofText? {s : Text} (h : IsNumber s) : (ofText? s).isSome := by
  obtain ⟨sign, digits, fraction, rfl, hsign, hdigits, hfraction⟩ := h
  have hhead := hdigits.head? fraction
  rw [List.append_assoc]
  obtain ⟨negative, hsplit⟩ := exists_sign hsign hhead
  rw [ofText?, hsplit]
  simp only [named?_of_digit hhead, Decimal.ofText?, hsplit, Option.isSome_map]
  have hwhole := digitsRest_eq hdigits.2 hfraction.head?
  have htake : (digits ++ fraction).takeWhile Char.isDigit = digits := congrArg Prod.fst hwhole
  have hdrop : (digits ++ fraction).dropWhile Char.isDigit = fraction := congrArg Prod.snd hwhole
  rw [htake, hdrop]
  rcases hfraction with rfl | ⟨ds, rfl, hds⟩
  · simp [hdigits.1, Decimal.exponent?]
  · have hrest := @digitsRest_eq ds [] hds.2 fun c hc => by cases hc
    rw [List.append_nil] at hrest
    have hnone : ds.dropWhile Char.isDigit = [] := congrArg Prod.snd hrest
    simp [hdigits.1, hnone, Decimal.exponent?]

end Number

end DrawLang
