/-
DrawLang/Proofs/Token/Lines.lean

Two counts of lines.  A token has the line on which it ends, which is told by the line feeds up to
there.  A reader counts line ends, and a carriage return is one as well, unless it is before a
line feed.  Where each carriage return is (`Text.Paired`) there are as many line ends as line
feeds (`Text.lineEnds_eq_count`), and the same holds of every text from the start up to a place
that is not inside such a pair (`Text.Paired.of_append`).  No lexeme ends there, whatever it
contains, because its last character is in a line (`Spells.isInLine_of_getLast?`).

Main statement: `line_counts_agree`.
-/
import DrawLang.Proofs.Text.Boundary
import DrawLang.Proofs.Text.Lines
import DrawLang.Proofs.Token.Tiling

namespace DrawLang

namespace Text

variable {s t : Text}

/-- Each carriage return is directly before a line feed. -/
def Paired (t : Text) : Prop := ∀ s r, t = s ++ '\r' :: r → r.head? = some '\n'

theorem paired_nil : Paired [] := fun s _ h =>
  absurd h.symm (List.append_ne_nil_of_right_ne_nil s (List.cons_ne_nil _ _))

theorem paired_cons {c : Char} : Paired (c :: t) ↔ (c = '\r' → t.head? = some '\n') ∧ Paired t := by
  constructor
  · intro h
    refine ⟨fun hc => h [] t (by rw [hc]; rfl), fun s r ht => h (c :: s) r ?_⟩
    rw [ht]
    rfl
  · rintro ⟨hc, h⟩ s r hsplit
    rcases s with - | ⟨d, s⟩
    · obtain ⟨rfl, rfl⟩ := List.cons.inj hsplit
      exact hc rfl
    · obtain ⟨-, rfl⟩ := List.cons.inj hsplit
      exact h s r rfl

instance instDecidablePaired : (t : Text) → Decidable (Paired t)
  | [] => isTrue paired_nil
  | _ :: t =>
    have := instDecidablePaired t
    decidable_of_iff _ paired_cons.symm

/-- What is before a place in a paired text is paired, if the place is not inside a pair. -/
theorem Paired.of_append (h : Paired (s ++ t)) (hlast : s.getLast? ≠ some '\r') : Paired s := by
  rintro u r rfl
  rcases r with - | ⟨c, r⟩
  · exact absurd List.getLast?_concat hlast
  · exact h u (c :: r ++ t) (List.append_assoc _ _ _)

/-- **A paired text has as many line ends as line feeds.** -/
theorem lineEnds_eq_count (h : Paired t) : lineEnds t = t.count '\n' := by
  induction t with
  | nil => rfl
  | cons c t ih =>
    obtain ⟨hpair, h⟩ := paired_cons.1 h
    rw [lineEnds, ih h, List.count_cons, Nat.add_comm]
    by_cases hc : c = '\n'
    · rw [if_pos (.inl hc), if_pos (beq_iff_eq.2 hc)]
    · have hnone : ¬ (c = '\n' ∨ c = '\r' ∧ t.head? ≠ some '\n') := fun hend =>
        hend.elim hc fun hlone => hlone.2 (hpair hlone.1)
      rw [if_neg hnone, if_neg (mt beq_iff_eq.1 hc)]

/-- A character of a class without line feeds and carriage returns is inside a line. -/
theorem isInLine_of_class {P : Char → Prop} (hfeed : ¬ P '\n') (hreturn : ¬ P '\r') {c : Char}
    (hc : P c) : isInLine c := by
  by_contra hend
  rcases not_isInLine_iff.1 hend with rfl | rfl
  · exact hfeed hc
  · exact hreturn hc

theorem IsWord.inWord_of_mem {w : Text} (h : IsWord w) {c : Char} (hc : c ∈ w) : InWord c := by
  rcases w with - | ⟨d, w⟩
  · cases hc
  obtain ⟨hfirst, hrest⟩ := h
  rcases List.mem_cons.1 hc with rfl | hc
  · rw [startsWord, Bool.or_eq_true, decide_eq_true_eq] at hfirst
    refine hfirst.imp (fun halpha => ?_) .inl
    rw [Char.isAlphanum, halpha, Bool.true_or]
  · exact hrest c hc

end Text

open Text

/-- **A lexeme ends inside a line.** -/
theorem Spells.isInLine_of_getLast? {k : TokenKind} {s : Text} (h : Spells k s) {c : Char}
    (hc : s.getLast? = some c) : isInLine c := by
  have hmem := List.mem_of_getLast? hc
  have hword : IsWord s → isInLine c := fun hs =>
    isInLine_of_class (by decide) (by decide) (hs.inWord_of_mem hmem)
  cases h with
  | openParen | closeParen | colon | arrow =>
    cases hc
    rfl
  | number hs =>
    have hin : inNumber c = true := hs.inNumber_of_mem hmem
    exact isInLine_of_class (P := (inNumber · = true)) (by decide) (by decide) hin
  | string v =>
    rw [quoted, List.getLast?_concat] at hc
    cases hc
    rfl
  | keyword hs => exact hword (isWord_of_keyword hs)
  | identifier hs => exact hword hs

/-- The byte offset of the last character of a token, and of the end of input that behind the
text. -/
def Token.last (t : Token) : Nat := t.offset + Text.bytes t.lexeme.dropLast

/-- In a paired text up to a character there, the line of the character is told by line feeds. -/
theorem exists_position_of_paired {before : Text} {c : Char} (h : Paired (before ++ [c]))
    (after : Text) : ∃ p, position? (before ++ c :: after) before.bytes = some p ∧
      p.line = 1 + (before ++ [c]).count '\n' ∧ p.last = [c] := by
  refine ⟨_, position?_append before (c :: after), congrArg (1 + ·) (lineEnds_eq_count h), ?_⟩
  rw [List.take_succ_cons, List.take_zero, lastCharacter, List.getLast?_concat, Option.toList_some]

/-- **The two counts of lines agree.**  In a text where each carriage return is directly before a
line feed, each token that scanning yields, also behind a character that starts no token, has the
line of the position of its last character, and the end of input that of the end of the text. -/
theorem line_counts_agree {source : Text} (h : source.Paired) {t : Token}
    (ht : .ok t ∈ source.scan) :
    (∃ p, source.position? t.last = some p ∧ p.line = t.line ∧
      (t.kind ≠ .endOfInput → ∃ c, t.lexeme.getLast? = some c ∧ p.last = [c])) ∧
    (t.kind = .endOfInput → t.last = source.bytes) := by
  have hmem := mem_tokens_iff.2 ht
  by_cases hkind : t.kind = .endOfInput
  · obtain rfl := eq_end_of_mem_tokens hmem hkind
    have hposition := position?_append source []
    rw [List.take_nil, List.append_nil] at hposition
    exact ⟨⟨_, hposition, congrArg (1 + ·) (lineEnds_eq_count h), fun hne => absurd rfl hne⟩,
      fun _ => rfl⟩
  · obtain ⟨before, after, hsource, hoffset, hline⟩ := place_of_mem_tokens hmem
    obtain ⟨hspells, -⟩ := longest_of_mem_tokens hmem hkind
    obtain ⟨init, c, hlexeme⟩ := List.eq_nil_or_concat t.lexeme |>.resolve_left hspells.ne_nil
    rw [List.concat_eq_append] at hlexeme
    have hlast : t.lexeme.getLast? = some c := by rw [hlexeme, List.getLast?_concat]
    rw [hlexeme, ← List.append_assoc] at hsource hline
    -- the text up to the end of the token does not end inside a pair
    have hseen : (before ++ init ++ [c]).Paired := by
      refine Paired.of_append (hsource ▸ h) ?_
      rw [List.getLast?_concat]
      rintro ⟨⟩
      exact absurd (hspells.isInLine_of_getLast? hlast) (by decide)
    obtain ⟨p, hp, hpline, hplast⟩ := exists_position_of_paired hseen after
    rw [List.append_cons, ← hsource, bytes_append, ← hoffset] at hp
    refine ⟨⟨p, ?_, hpline.trans hline.symm, fun _ => ⟨c, hlast, hplast⟩⟩, fun h => absurd h hkind⟩
    rw [Token.last, hlexeme, List.dropLast_concat, hp]

/-- A comment, a character that starts no token and a string of two lines are before `d`, which is
on the fourth line by both counts. -/
theorem line_counts_agree_string :
    let source : Text := "a;b\r\n% \"c\r\n\"\r\nd\r\n".toList
    let d : Token := ⟨.identifier, ['d'], 14, 4⟩
    source.Paired ∧ .error (Tile.unexpected 5 '%') ∈ source.scan ∧ .ok d ∈ source.scan ∧
      d.kind ≠ .endOfInput ∧
      ∃ p, source.position? d.last = some p ∧ p.line = 4 ∧ p.last = ['d'] := by
  intro source d
  have hpaired : source.Paired := by decide
  have hreport : .error (Tile.unexpected 5 '%') ∈ source.scan := by decide +kernel
  have hmem : .ok d ∈ source.scan := by decide +kernel
  obtain ⟨⟨p, hp, hline, hlast⟩, -⟩ := line_counts_agree hpaired hmem
  have hkind : d.kind ≠ .endOfInput := nofun
  obtain ⟨c, hc, hplast⟩ := hlast hkind
  cases hc
  exact ⟨hpaired, hreport, hmem, hkind, p, hp, hline, hplast⟩

end DrawLang
