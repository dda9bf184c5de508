/-
DrawLang/Proofs/Grammar/Report.lean

What a report about the form of a program is worth.  A report stands at a token and
names the constructs that were wanted there.  With all tokens before it a program
could still begin, and with that token as well none can, however deep it may nest
(`reports_stand_at_first_hopeless_token`).

Each construct that is named could stand in the place of the token, with one
exception: behind a whole program a report names the end of input, which is right,
and a definition, which can never follow there (`wanted_constructs_can_follow`).
-/
import DrawLang.Proofs.Grammar.Continued
import DrawLang.Proofs.Grammar.Hopeless
import DrawLang.Proofs.Grammar.Layout

namespace DrawLang

namespace Grammar

/-! ### Rows that are not viable -/

/-- A token with which no scope goes on leads to no sentence. -/
theorem Hopeless.not_viable {done : List Token} {t : Token} (h : Hopeless .scope done t) :
    ¬ Viable (done ++ [t]) := by
  rintro ⟨more, d, last, htokens, -, hd⟩
  refine h d.tokens [last] more ⟨d, rfl, hd⟩ ?_
  rw [htokens, List.append_assoc, List.singleton_append]

/-- Behind a whole program only the end of input leads to a sentence, or a call. -/
theorem Program.not_viable {d : Program} {t : Token} (hd : d.Derives [t])
    (hend : t.kind ≠ .endOfInput) : ¬ Viable (d.tokens ++ [t]) := by
  rintro ⟨more, d', last, htokens, hlast, hd'⟩
  have hmore := d.derives_less (opensLess_cons t [] more) hd
  rw [List.append_assoc, List.singleton_append] at htokens
  obtain ⟨-, hrest⟩ := Program.unique d' d hd' hmore htokens
  obtain ⟨rfl, -⟩ := List.cons.inj hrest
  exact hend hlast

/-- A whole program is a sentence with the end of input. -/
theorem Program.sentence {d : Program} {rest : List Token} (hd : d.Derives rest) {last : Token}
    (hlast : last.kind = .endOfInput) : Sentence (d.tokens ++ [last]) :=
  ⟨d, last, rfl, hlast, d.derives_less (opensLess_end hlast rest) hd⟩

/-! ### What can stand in the place of a token -/

/-- The construct can stand in the place of a token that comes behind these: a token that
it begins with, put there, leads to a sentence. -/
def CanReplace (done : List Token) (t : Token) (c : Construct) : Prop :=
  ∃ u : Token, c.BegunBy u ∧ u.offset = t.offset ∧ Viable (done ++ [u])

/-- Where reading is stuck, something is wanted, and all that is wanted begins with a token
that opens nothing. -/
theorem Stuck.wanted {rest done : List Token} {phrase : Phrase} {cs : List Construct}
    (h : Stuck rest phrase done cs) (offset : Nat) :
    cs ≠ [] ∧ ∀ c ∈ cs, ∃ u : Token, c.BegunBy u ∧ u.offset = offset ∧ u.kind ≠ .openParen := by
  have hname : ∃ u : Token, Construct.identifier.BegunBy u ∧ u.offset = offset ∧
      u.kind ≠ .openParen := ⟨⟨.identifier, ['x'], offset, 1⟩, rfl, rfl, nofun⟩
  have hexpression : ∃ u : Token, Construct.expression.BegunBy u ∧ u.offset = offset ∧
      u.kind ≠ .openParen := ⟨⟨.identifier, ['x'], offset, 1⟩, rfl, rfl, nofun⟩
  have hdefinition : ∃ u : Token, Construct.definition.BegunBy u ∧ u.offset = offset ∧
      u.kind ≠ .openParen := ⟨⟨.define, "def".toList, offset, 1⟩, rfl, rfl, nofun⟩
  have hclosing : ∃ u : Token, Construct.closeParen.BegunBy u ∧ u.offset = offset ∧
      u.kind ≠ .openParen := ⟨⟨.closeParen, [')'], offset, 1⟩, rfl, rfl, nofun⟩
  induction h with
  | function | called | item | itemBefore | call | callBefore | inResult | inBody
  | clauseBefore => assumption
  | primary | unnamed => simp [hexpression, hname]
  | params | arguments | result => simp [hexpression, hname, hdefinition, hclosing]

/-- Everything that is wanted where reading is stuck can stand there. -/
theorem Stuck.canReplace {rest done : List Token} {cs : List Construct}
    (h : Stuck rest .scope done cs) {c : Construct} (hc : c ∈ cs) (t : Token) :
    CanReplace done t c := by
  obtain ⟨u, hbegun, hoffset, hu⟩ := (h.wanted t.offset).2 c hc
  exact ⟨u, hbegun, hoffset, (h.continued hc hbegun hu).viable⟩

theorem Stuck.viable {rest done : List Token} {cs : List Construct}
    (h : Stuck rest .scope done cs) : Viable done := by
  obtain ⟨c, hc⟩ := List.exists_mem_of_ne_nil cs (h.wanted 0).1
  obtain ⟨u, -, -, hviable⟩ := h.canReplace hc nameToken
  exact hviable.of_append

theorem Stuck.endOfInput_not_mem {rest done : List Token} {phrase : Phrase} {cs : List Construct}
    (h : Stuck rest phrase done cs) : .endOfInput ∉ cs := by
  induction h with
  | function | called | item | itemBefore | call | callBefore | inResult | inBody
  | clauseBefore => assumption
  | primary | unnamed | params | arguments | result => simp

/-! ### Reports about tokens -/

/-- Why a row of tokens is not read: a scope is stuck, or a whole program is read and
something else than the end of input follows. -/
theorem stuck_or_whole {ts rest : List Token} {cs : List Construct}
    (h : Scope.ofTokens ts = .error ⟨rest, .missing cs⟩) :
    (∃ done, done ++ rest = ts ∧ Stuck rest .scope done cs) ∨
      cs = [.definition, .endOfInput] ∧ ∃ (d : Program) (t : Token) (us : List Token),
        rest = t :: us ∧ d.tokens ++ rest = ts ∧ d.Derives rest ∧ t.kind ≠ .endOfInput := by
  rw [Scope.ofTokens] at h
  split at h
  · rename_i d hread
    cases h
    exact .inl (sticks_scope nestingLimit ts rest cs hread)
  · cases h
  · rename_i s t us hlt hread
    split at h
    · cases h
    · rename_i hend
      cases h
      obtain ⟨d, htokens, hd, -, -⟩ := (readsPrograms_scope _ _ _ _).1 ⟨hlt, hread⟩
      exact .inr ⟨rfl, d, t, us, rfl, htokens, hd, hend⟩

/-- **Where a row of tokens is not read**, the tokens before the next one are viable, those up
to it are not, and what is wanted can stand there, a definition behind a whole program
excepted. -/
theorem report_of_ofTokens {ts us : List Token} {t : Token} {cs : List Construct}
    (h : Scope.ofTokens ts = .error ⟨t :: us, .missing cs⟩) :
    ∃ done, ts = done ++ t :: us ∧ Viable done ∧ ¬ Viable (done ++ [t]) ∧
      ∀ c ∈ cs, CanReplace done t c ↔ ¬ (c = .definition ∧ .endOfInput ∈ cs) := by
  obtain ⟨done, rfl, hstuck⟩ | ⟨rfl, d, _, _, ⟨⟩, rfl, hd, hend⟩ := stuck_or_whole h
  · refine ⟨done, rfl, hstuck.viable, hstuck.hopeless.not_viable, fun c hc => ?_⟩
    exact iff_of_true (hstuck.canReplace hc t) fun hboth => hstuck.endOfInput_not_mem hboth.2
  · have hviable : ∀ u : Token, u.kind = .endOfInput → Viable (d.tokens ++ [u]) := fun u hu =>
      (viable_end_iff hu).2 (Program.sentence hd hu)
    refine ⟨d.tokens, rfl, (hviable ⟨.endOfInput, [], 0, 1⟩ rfl).of_append,
      Program.not_viable (d.derives_less (opensLess_cons t us []) hd) hend, ?_⟩
    intro c hc
    simp only [List.mem_cons, List.not_mem_nil, or_false] at hc
    rcases hc with rfl | rfl
    -- a keyword touches nothing, so it follows the program where the token did
    · refine iff_of_false ?_ (by simp)
      rintro ⟨u, hdefine, -, hu⟩
      have hquiet : Quiet [u] := quiet_cons (by simp [show u.kind = .define from hdefine]) []
      refine Program.not_viable (d.derives_less (hquiet.opensLess (t :: us)) hd) ?_ hu
      simp [show u.kind = .define from hdefine]
    · exact iff_of_true ⟨⟨.endOfInput, [], t.offset, 1⟩, rfl, rfl, hviable _ rfl⟩ (by simp)

end Grammar

/-! ### Reports about texts -/

open Grammar

/-- A report about the tokens of a text, if it is not for too deep nesting, is one of
missing constructs at a token. -/
theorem Scope.exists_dead_of_ofText {source : Text} {ts : List Token} {m : Mismatch}
    (htokens : source.tokens? = .ok ts) (hreport : Scope.ofText source = .error m)
    (hlimit : m.wanted ≠ .levels .parse nestingLimit) :
    ∃ t us cs, Scope.ofTokens ts = .error ⟨t :: us, .missing cs⟩ ∧ m.offset = t.offset ∧
      m.wanted = .construct cs := by
  rw [Scope.ofText, htokens] at hreport
  rcases e : Scope.ofTokens ts with ⟨rest, cs | -⟩ | s <;> simp only [e] at hreport
  · cases hreport
    obtain ⟨t, us, rfl, -⟩ := Text.exists_token_of_passes htokens (passes_of_ofTokens e)
    exact ⟨t, us, cs, rfl, rfl, rfl⟩
  · cases hreport
    exact absurd rfl hlimit
  · cases hreport

/-- A report is told without the tree that there would be. -/
theorem Scope.ofText_eq_error {source : Text} {m : Mismatch}
    (h : (ofText source).map (fun _ => ()) = .error m) : ofText source = .error m := by
  rcases e : ofText source with m' | s
  · rw [e] at h
    cases h
    rfl
  · rw [e] at h
    cases h

/-- **A report stands at the first hopeless token.**  Take a text without lexical reports
that is not read, for another reason than too deep nesting.  There is exactly one token at
the offset of the report.  The tokens before it begin some program, of any depth; with
that token there is none that begins with them.  For the end of input this says that
they are no program yet. -/
theorem reports_stand_at_first_hopeless_token {source : Text} {ts : List Token} {m : Mismatch}
    (htokens : source.tokens? = .ok ts) (hreport : Scope.ofText source = .error m)
    (hlimit : m.wanted ≠ .levels .parse nestingLimit) :
    ∃ done t us, ts = done ++ t :: us ∧ (∀ u ∈ ts, u.offset = m.offset ↔ u = t) ∧
      Viable done ∧ ¬ Viable (done ++ [t]) := by
  obtain ⟨t, us, cs, hdead, hoffset, -⟩ := Scope.exists_dead_of_ofText htokens hreport hlimit
  obtain ⟨done, rfl, hviable, hhopeless, -⟩ := report_of_ofTokens hdead
  exact ⟨done, t, us, rfl, fun u hu => hoffset ▸ Text.offset_eq_iff htokens hu (by simp),
    hviable, hhopeless⟩

/-- An arrow among arguments, behind a string of more bytes than characters. -/
theorem reports_stand_at_first_hopeless_token_arrow :
    let source : Text := "f(\"ü\" -> x)".toList
    let ts : List Token := [⟨.identifier, ['f'], 0, 1⟩, ⟨.openParen, ['('], 1, 1⟩,
      ⟨.string ['ü'], "\"ü\"".toList, 2, 1⟩, ⟨.arrow, "->".toList, 7, 1⟩,
      ⟨.identifier, ['x'], 10, 1⟩, ⟨.closeParen, [')'], 11, 1⟩, ⟨.endOfInput, [], 12, 1⟩]
    let m : Mismatch := ⟨7, .construct [.expression, .closeParen], "->".toList⟩
    source.tokens? = .ok ts ∧ Scope.ofText source = .error m ∧
      m.wanted ≠ .levels .parse nestingLimit ∧
      ∃ done us, ts = done ++ ⟨.arrow, "->".toList, 7, 1⟩ :: us ∧ Viable done ∧
        ¬ Viable (done ++ [⟨.arrow, "->".toList, 7, 1⟩]) := by
  intro source ts m
  have htokens : source.tokens? = .ok ts := by decide +kernel
  have hreport : Scope.ofText source = .error m := Scope.ofText_eq_error (by decide +kernel)
  have hlimit : m.wanted ≠ .levels .parse nestingLimit := by decide
  obtain ⟨done, t, us, hts, hat, hviable, hhopeless⟩ :=
    reports_stand_at_first_hopeless_token htokens hreport hlimit
  obtain rfl := (hat ⟨.arrow, "->".toList, 7, 1⟩ (by simp [ts])).1 rfl
  exact ⟨htokens, hreport, hlimit, done, us, hts, hviable, hhopeless⟩

/-- **What is wanted can follow.**  Take a report as above.  Each construct that it names can
stand where the token at its offset stands, so that there is a program that begins with
the tokens before and then that construct.  The one exception is a definition that is
wanted along with the end of input. -/
theorem wanted_constructs_can_follow {source : Text} {ts : List Token} {m : Mismatch}
    (htokens : source.tokens? = .ok ts) (hreport : Scope.ofText source = .error m)
    (hlimit : m.wanted ≠ .levels .parse nestingLimit) :
    ∃ cs done t us, m.wanted = .construct cs ∧ ts = done ++ t :: us ∧
      (∀ u ∈ ts, u.offset = m.offset ↔ u = t) ∧
      ∀ c ∈ cs, CanReplace done t c ↔ ¬ (c = .definition ∧ .endOfInput ∈ cs) := by
  obtain ⟨t, us, cs, hdead, hoffset, hwanted⟩ :=
    Scope.exists_dead_of_ofText htokens hreport hlimit
  obtain ⟨done, rfl, -, -, hcan⟩ := report_of_ofTokens hdead
  exact ⟨cs, done, t, us, hwanted, rfl,
    fun u hu => hoffset ▸ Text.offset_eq_iff htokens hu (by simp), hcan⟩

/-- Where arguments stop, one more expression can stand, and the parenthesis that ends them. -/
theorem wanted_constructs_can_follow_arguments :
    let source : Text := "f(\"ü\" -> x)".toList
    let ts : List Token := [⟨.identifier, ['f'], 0, 1⟩, ⟨.openParen, ['('], 1, 1⟩,
      ⟨.string ['ü'], "\"ü\"".toList, 2, 1⟩, ⟨.arrow, "->".toList, 7, 1⟩,
      ⟨.identifier, ['x'], 10, 1⟩, ⟨.closeParen, [')'], 11, 1⟩, ⟨.endOfInput, [], 12, 1⟩]
    let m : Mismatch := ⟨7, .construct [.expression, .closeParen], "->".toList⟩
    source.tokens? = .ok ts ∧ Scope.ofText source = .error m ∧
      m.wanted ≠ .levels .parse nestingLimit ∧
      ∃ done us, ts = done ++ ⟨.arrow, "->".toList, 7, 1⟩ :: us ∧
        CanReplace done ⟨.arrow, "->".toList, 7, 1⟩ .expression ∧
        CanReplace done ⟨.arrow, "->".toList, 7, 1⟩ .closeParen := by
  intro source ts m
  have htokens : source.tokens? = .ok ts := by decide +kernel
  have hreport : Scope.ofText source = .error m := Scope.ofText_eq_error (by decide +kernel)
  have hlimit : m.wanted ≠ .levels .parse nestingLimit := by decide
  obtain ⟨cs, done, t, us, hwanted, hts, hat, hcan⟩ :=
    wanted_constructs_can_follow htokens hreport hlimit
  obtain rfl := (hat ⟨.arrow, "->".toList, 7, 1⟩ (by simp [ts])).1 rfl
  obtain rfl := Wanted.construct.inj hwanted
  exact ⟨htokens, hreport, hlimit, done, us, hts, (hcan _ (by simp)).2 (by simp),
    (hcan _ (by simp)).2 (by simp)⟩

/-- Behind the whole program `1` a definition is wanted along with the end of input, but it
cannot stand there. -/
theorem definition_wanted_in_vain :
    let source : Text := "1 2".toList
    let one : Token := ⟨.number 1, ['1'], 0, 1⟩
    let two : Token := ⟨.number 2, ['2'], 2, 1⟩
    source.tokens? = .ok [one, two, ⟨.endOfInput, [], 3, 1⟩] ∧
      Scope.ofText source = .error ⟨two.offset, .construct [.definition, .endOfInput], ['2']⟩ ∧
      ¬ CanReplace [one] two .definition := by
  intro source one two
  have htokens : source.tokens? = .ok [one, two, ⟨.endOfInput, [], 3, 1⟩] := by decide +kernel
  have hreport : Scope.ofText source =
      .error ⟨two.offset, .construct [.definition, .endOfInput], ['2']⟩ :=
    Scope.ofText_eq_error (by decide +kernel)
  obtain ⟨t, us, cs, hdead, hoffset, hwanted⟩ :=
    Scope.exists_dead_of_ofText htokens hreport (by decide)
  obtain ⟨done, hts, -, -, hcan⟩ := report_of_ofTokens hdead
  obtain rfl : two = t := (Text.offset_eq_iff htokens (by simp) (hts ▸ by simp)).1 hoffset
  obtain rfl := Wanted.construct.inj hwanted
  obtain rfl : [one] = done := by
    rcases done with _ | ⟨a, _ | ⟨b, _ | ⟨c, done⟩⟩⟩ <;> simp_all [one, two]
  exact ⟨htokens, hreport, fun h => (hcan _ (by simp)).1 h (by simp)⟩

end DrawLang
