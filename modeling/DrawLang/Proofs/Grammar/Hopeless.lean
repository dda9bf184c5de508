/-
DrawLang/Proofs/Grammar/Hopeless.lean

What is stuck is lost.  Where reading is stuck, no phrase has the tokens that were
read and the next one behind them, whatever follows: any phrase that starts with
these tokens takes the same way through the grammar up to the place, and there it
would need another token (`Stuck.hopeless`).

So a report of the rules is at the first token with which the row can no longer
become a program.
-/
import DrawLang.Proofs.Grammar.Moved
import DrawLang.Proofs.Grammar.Stuck

namespace DrawLang.Grammar

/-! ### What the next token decides -/

section

variable {t : Token} {us us' : List Token}

/-- Which calls a row opens depends on its first token only. -/
theorem opensLess_cons (t : Token) (us us' : List Token) : OpensLess (t :: us) (t :: us') := by
  rintro stop ⟨_, _, ⟨⟩, ht⟩
  exact ⟨t, us, rfl, ht⟩

theorem Ahead.of_cons {P : Token → Prop} (h : Ahead P (t :: us)) : ¬ P t := h t us rfl

theorem Ahead.cons {P : Token → Prop} (h : Ahead P (t :: us)) (us' : List Token) :
    Ahead P (t :: us') :=
  ahead_cons h.of_cons us'

/-- What follows the next token can be exchanged. -/
theorem Ahead.append_cons {P : Token → Prop} {done : List Token} (h : Ahead P (done ++ t :: us))
    (us' : List Token) : Ahead P (done ++ t :: us') := by
  rcases done with - | ⟨u, done⟩
  · exact Ahead.cons h us'
  · exact ahead_cons h.of_cons _

theorem Next.append_cons {P : Token → Prop} {done : List Token} (h : Next P (done ++ t :: us))
    (us' : List Token) : Next P (done ++ t :: us') := by
  obtain ⟨v, vs, hcons, hv⟩ := h
  rcases done with - | ⟨u, done⟩
  · obtain ⟨rfl, -⟩ := List.cons.inj hcons
    exact ⟨t, us', rfl, hv⟩
  · obtain ⟨rfl, -⟩ := List.cons.inj hcons
    exact ⟨u, done ++ t :: us', rfl, hv⟩

/-- A token that starts an expression is no separator. -/
theorem kind_ne_of_startsExpression {k : TokenKind} (hk : k ∈ TokenKind.separators)
    (h : t.startsExpression = true) : t.kind ≠ k := by
  rintro rfl
  rw [Token.startsExpression_eq_false hk] at h
  cases h

/-- An optional token in front of rows that do not start with one is in both or in none. -/
theorem option_passed {k : TokenKind} {o o' : Option Token} {rest rest' : List Token}
    (ho : ∀ t ∈ o, t.kind = k) (hnone : o = none → Ahead (·.kind = k) rest)
    (ho' : ∀ t ∈ o', t.kind = k) (hrest' : Ahead (·.kind = k) rest')
    (h : o.toList ++ rest = o'.toList ++ rest') : rest = rest' := by
  rcases o with - | t
  · exact (option_unique ho ho' (hnone rfl) hrest' h).2
  · rcases o' with - | t'
    · exact absurd (ho t rfl) (hrest' t _ h.symm)
    · exact (List.cons.inj h).2

end

/-! ### Phrases that start like what is stuck -/

/-- No phrase has these tokens in front, whatever follows. -/
def Hopeless (phrase : Phrase) (done : List Token) (t : Token) : Prop :=
  ∀ ts rest us, phrase.Derives ts rest → ts ++ rest ≠ done ++ t :: us

section

variable {t : Token} {us done : List Token}

/-- An expression that starts with a parenthesis is a function. -/
theorem exists_function_of_opening {x : Expression} {opening : Token} {rest us : List Token}
    (hopen : opening.kind = .openParen) (hx : x.Derives rest)
    (heq : x.tokens ++ rest = opening :: us) :
    ∃ (ps : List Token) (closing : Token) (arrow : Option Token) (body : Expression)
      (behind : List Token), (∀ t ∈ ps, t.kind = .identifier) ∧ closing.kind = .closeParen ∧
        (∀ t ∈ arrow, t.kind = .arrow) ∧ body.Derives behind ∧
          ps ++ closing :: (arrow.toList ++ (body.tokens ++ behind)) = us := by
  obtain ⟨⟨t, a⟩ | ⟨opening', ps, closing, arrow, body⟩, calls⟩ := x
  · rw [Expression.Derives, Primary.Derives] at hx
    obtain ⟨rfl, -⟩ := List.cons.inj heq
    rw [Token.atom?_eq_none_of_openParen hopen] at hx
    exact absurd hx.1 nofun
  · rw [Expression.Derives, Primary.Derives] at hx
    obtain ⟨-, hps, hclose, harrow, hbody⟩ := hx.1
    simp only [Expression.tokens, Primary.tokens, List.cons_append, List.append_assoc,
      List.cons.injEq] at heq
    exact ⟨ps, closing, arrow, body, _, hps, hclose, harrow, hbody, heq.2⟩

theorem hopeless_params {opening : Token} {ps : List Token} (hopen : opening.kind = .openParen)
    (hps : ∀ t ∈ ps, t.kind = .identifier) (hname : t.kind ≠ .identifier)
    (hclose : t.kind ≠ .closeParen) : Hopeless .expression (opening :: ps) t := by
  rintro ts rest us ⟨x, rfl, hx⟩ heq
  obtain ⟨ps', closing, arrow, body, behind, hps', hclose', -, -, hinside⟩ :=
    exists_function_of_opening hopen hx heq
  have hnot : closing.kind ≠ .identifier := by simp [hclose']
  obtain ⟨-, hbehind⟩ := row_unique hps' hps (ahead_cons hnot _) (ahead_cons hname us) hinside
  obtain ⟨rfl, -⟩ := List.cons.inj hbehind
  exact hclose hclose'

theorem hopeless_function {opening closing : Token} {ps : List Token} {arrow : Option Token}
    (hopen : opening.kind = .openParen) (hps : ∀ t ∈ ps, t.kind = .identifier)
    (hclose : closing.kind = .closeParen) (harrow : ∀ t ∈ arrow, t.kind = .arrow)
    (hnone : arrow = none → Ahead (·.kind = .arrow) (done ++ t :: us))
    (h : Hopeless .expression done t) :
    Hopeless .expression (opening :: (ps ++ closing :: (arrow.toList ++ done))) t := by
  rintro ts rest us ⟨x, rfl, hx⟩ heq
  simp only [List.cons_append, List.append_assoc] at heq
  obtain ⟨ps', closing', arrow', body, behind, hps', hclose', harrow', hbody, hinside⟩ :=
    exists_function_of_opening hopen hx heq
  have hnot : ∀ u : Token, u.kind = .closeParen → u.kind ≠ .identifier := fun u hu => by simp [hu]
  obtain ⟨-, hbehind⟩ := row_unique hps' hps (ahead_cons (hnot _ hclose') _)
    (ahead_cons (hnot _ hclose) _) hinside
  have hsep : .arrow ∈ TokenKind.separators := by simp [TokenKind.separators]
  have hrow := option_passed harrow (fun ha => (hnone ha).append_cons us) harrow'
    (Expression.ahead hsep hbody behind) (List.cons.inj hbehind).2.symm
  exact h _ _ us ⟨body, rfl, hbody⟩ hrow.symm

theorem hopeless_called {p : Primary} (hp : p.Derives (done ++ t :: us))
    (h : Hopeless (.calls p.stop) done t) : Hopeless .expression (p.tokens ++ done) t := by
  rintro ts rest us' ⟨⟨p', calls⟩, rfl, hx⟩ heq
  rw [Expression.Derives] at hx
  rw [Expression.tokens, List.append_assoc, List.append_assoc] at heq
  have hp' := p.derives_less (opensLess_append (opensLess_cons t us us') done) hp
  obtain ⟨rfl, hcalls⟩ := Primary.unique p' p hx.1 hp' heq
  exact h _ rest us' ⟨calls, rfl, hx.2⟩ hcalls

/-- In front of the closing parenthesis of some arguments there is no other token. -/
theorem hopeless_arguments (hstarts : ¬ t.startsExpression = true) (hclose : t.kind ≠ .closeParen) :
    Hopeless .arguments [] t := by
  rintro ts rest us ⟨- | ⟨x, xs⟩, closing, rfl, hxs, hclose'⟩ heq
  · obtain ⟨rfl, -⟩ := List.cons.inj heq
    exact hclose hclose'
  · rw [ItemsDerive] at hxs
    obtain ⟨u, vs, htokens, hu⟩ := x.exists_tokens hxs.1
    rw [itemsTokens, htokens] at heq
    obtain ⟨rfl, -⟩ := List.cons.inj heq
    exact hstarts hu

theorem hopeless_item (hstarts : Next (·.startsExpression = true) (done ++ t :: us))
    (h : Hopeless .expression done t) : Hopeless .arguments done t := by
  rintro ts rest us' ⟨- | ⟨x, xs⟩, closing, rfl, hxs, hclose⟩ heq
  · obtain ⟨u, vs, hcons, hu⟩ := hstarts.append_cons us'
    rw [hcons] at heq
    obtain ⟨rfl, -⟩ := List.cons.inj heq
    exact kind_ne_of_startsExpression (by simp [TokenKind.separators]) hu hclose
  · rw [ItemsDerive] at hxs
    refine h _ (itemsTokens xs ++ closing :: rest) us' ⟨x, rfl, hxs.1⟩ ?_
    simpa [itemsTokens] using heq

theorem hopeless_itemBefore {x : Expression} (hx : x.Derives (done ++ t :: us))
    (h : Hopeless .arguments done t) : Hopeless .arguments (x.tokens ++ done) t := by
  rintro ts rest us' ⟨- | ⟨x', xs⟩, closing, rfl, hxs, hclose⟩ heq
  · obtain ⟨u, vs, htokens, hu⟩ := x.exists_tokens hx
    rw [htokens] at heq
    obtain ⟨rfl, -⟩ := List.cons.inj heq
    exact kind_ne_of_startsExpression (by simp [TokenKind.separators]) hu hclose
  · rw [ItemsDerive] at hxs
    have hx' := x.derives_less (opensLess_append (opensLess_cons t us us') done) hx
    obtain ⟨-, hmore⟩ := Expression.unique x' x hxs.1 hx' (by simpa [itemsTokens] using heq)
    refine h _ rest us' ⟨xs, closing, rfl, hxs.2, hclose⟩ ?_
    simpa using hmore

theorem hopeless_call {opening : Token} (hopen : opening.kind = .openParen)
    (h : Hopeless .arguments done t) : Hopeless (.calls opening.offset) (opening :: done) t := by
  rintro ts rest us ⟨- | ⟨⟨opening', xs, closing⟩, calls⟩, rfl, hcalls⟩ heq
  -- without a call nothing touches, but the parenthesis does
  · rw [CallsDerive] at hcalls
    exact hcalls ⟨opening, _, heq, hopen, rfl⟩
  · rw [CallsDerive] at hcalls
    obtain ⟨-, -, hitems, hclose, -⟩ := hcalls
    refine h _ (callsTokens calls ++ rest) us ⟨xs, closing, rfl, hitems, hclose⟩ ?_
    simp only [callsTokens, List.cons_append, List.append_assoc, List.cons.injEq] at heq
    simpa using heq.2

theorem hopeless_callBefore {opening closing : Token} {xs : List Expression}
    (hopen : opening.kind = .openParen) (hitems : ItemsDerive (closing :: (done ++ t :: us)) xs)
    (hclose : closing.kind = .closeParen) (h : Hopeless (.calls closing.stop) done t) :
    Hopeless (.calls opening.offset) (opening :: (itemsTokens xs ++ closing :: done)) t := by
  rintro ts rest us' ⟨- | ⟨⟨opening', xs', closing'⟩, calls⟩, rfl, hcalls⟩ heq
  · rw [CallsDerive] at hcalls
    exact hcalls ⟨opening, _, heq, hopen, rfl⟩
  · rw [CallsDerive] at hcalls
    obtain ⟨-, -, hitems', hclose', hcalls⟩ := hcalls
    simp only [callsTokens, List.cons_append, List.append_assoc, List.cons.injEq] at heq
    have hxs := items_derive_less xs (opensLess_cons closing _ (done ++ t :: us')) hitems
    obtain ⟨-, hend⟩ := items_unique xs' xs hitems' hxs (ahead_closing hclose' _)
      (ahead_closing hclose _) (by simpa using heq.2)
    obtain ⟨rfl, hbehind⟩ := List.cons.inj hend
    exact h _ rest us' ⟨calls, rfl, hcalls⟩ hbehind

theorem hopeless_result (hdefine : t.kind ≠ .define) (hstarts : ¬ t.startsExpression = true) :
    Hopeless .scope [] t := by
  rintro ts rest us ⟨⟨- | ⟨⟨keyword, name, colon, d⟩, clauses⟩, x⟩, rfl, hd⟩ heq
  · rw [Program.Derives] at hd
    obtain ⟨u, vs, htokens, hu⟩ := x.exists_tokens hd.2
    rw [Program.tokens, clausesTokens, htokens] at heq
    obtain ⟨rfl, -⟩ := List.cons.inj heq
    exact hstarts hu
  · rw [Program.Derives, ClausesDerive] at hd
    obtain ⟨rfl, -⟩ := List.cons.inj heq
    exact hdefine hd.1.1

theorem hopeless_inResult (hstarts : Next (·.startsExpression = true) (done ++ t :: us))
    (h : Hopeless .expression done t) : Hopeless .scope done t := by
  rintro ts rest us' ⟨⟨- | ⟨⟨keyword, name, colon, d⟩, clauses⟩, x⟩, rfl, hd⟩ heq
  · exact h _ rest us' ⟨x, rfl, hd.2⟩ heq
  · rw [Program.Derives, ClausesDerive] at hd
    obtain ⟨u, vs, hcons, hu⟩ := hstarts.append_cons us'
    rw [hcons] at heq
    obtain ⟨rfl, -⟩ := List.cons.inj heq
    exact kind_ne_of_startsExpression (by simp [TokenKind.separators]) hu hd.1.1

/-- A scope that starts with a keyword has a definition there. -/
theorem exists_clause_of_keyword {d : Program} {keyword : Token} {rest us : List Token}
    (hdefine : keyword.kind = .define) (hd : d.Derives rest)
    (heq : d.tokens ++ rest = keyword :: us) :
    ∃ (name : Token) (colon : Option Token) (body d' : Program), name.kind = .identifier ∧
      (∀ t ∈ colon, t.kind = .colon) ∧ body.Derives (d'.tokens ++ rest) ∧ d'.Derives rest ∧
        name :: (colon.toList ++ (body.tokens ++ (d'.tokens ++ rest))) = us := by
  obtain ⟨- | ⟨⟨keyword', name, colon, body⟩, clauses⟩, x⟩ := d
  · rw [Program.Derives] at hd
    have hsep : .define ∈ TokenKind.separators := by simp [TokenKind.separators]
    exact absurd hdefine (Expression.ahead hsep hd.2 rest keyword us heq)
  · rw [Program.Derives, ClausesDerive] at hd
    obtain ⟨⟨-, hname, hcolon, hbody, hclauses⟩, hx⟩ := hd
    simp only [Program.tokens, clausesTokens, List.cons_append, List.append_assoc,
      List.cons.injEq] at heq
    refine ⟨name, colon, body, .mk clauses x, hname, hcolon, ?_, ⟨hclauses, hx⟩, ?_⟩
    · rw [Program.tokens, List.append_assoc]
      exact hbody
    · rw [Program.tokens, List.append_assoc]
      exact heq.2

theorem hopeless_unnamed {keyword : Token} (hdefine : keyword.kind = .define)
    (hname : t.kind ≠ .identifier) : Hopeless .scope [keyword] t := by
  rintro ts rest us ⟨d, rfl, hd⟩ heq
  obtain ⟨name, colon, body, d', hname', -, -, -, hbehind⟩ :=
    exists_clause_of_keyword hdefine hd heq
  obtain ⟨rfl, -⟩ := List.cons.inj hbehind
  exact hname hname'

theorem hopeless_inBody {keyword name : Token} {colon : Option Token}
    (hdefine : keyword.kind = .define) (hcolon : ∀ t ∈ colon, t.kind = .colon)
    (hnone : colon = none → Ahead (·.kind = .colon) (done ++ t :: us))
    (h : Hopeless .scope done t) :
    Hopeless .scope (keyword :: name :: (colon.toList ++ done)) t := by
  rintro ts rest us' ⟨d, rfl, hd⟩ heq
  simp only [List.cons_append, List.append_assoc] at heq
  obtain ⟨name', colon', body, d', -, hcolon', hbody, -, hbehind⟩ :=
    exists_clause_of_keyword hdefine hd heq
  have hrow := option_passed hcolon (fun hc => (hnone hc).append_cons us') hcolon'
    (body.ahead_colon hbody (d'.tokens ++ rest)) (List.cons.inj hbehind).2.symm
  exact h _ _ us' ⟨body, rfl, hbody⟩ hrow.symm

theorem hopeless_clauseBefore {keyword name : Token} {colon : Option Token} {d : Program}
    (hdefine : keyword.kind = .define) (hcolon : ∀ t ∈ colon, t.kind = .colon)
    (hd : d.Derives (done ++ t :: us)) (h : Hopeless .scope done t) :
    Hopeless .scope (keyword :: name :: (colon.toList ++ (d.tokens ++ done))) t := by
  rintro ts rest us' ⟨d', rfl, hd'⟩ heq
  simp only [List.cons_append, List.append_assoc] at heq
  obtain ⟨name', colon', body, d'', -, hcolon', hbody, hbehind, htokens⟩ :=
    exists_clause_of_keyword hdefine hd' heq
  obtain ⟨-, hbodies⟩ := option_unique hcolon' hcolon (body.ahead_colon hbody _)
    (d.ahead_colon hd _) (List.cons.inj htokens).2
  have hdone := d.derives_less (opensLess_append (opensLess_cons t us us') done) hd
  obtain ⟨-, hmore⟩ := Program.unique body d hbody hdone hbodies
  exact h _ rest us' ⟨d'', rfl, hbehind⟩ hmore

end

/-- **Where reading is stuck, the next token leads nowhere.** -/
theorem Stuck.hopeless {t : Token} {us done : List Token} {phrase : Phrase} {cs : List Construct}
    (h : Stuck (t :: us) phrase done cs) : Hopeless phrase done t := by
  induction h with
  | primary hrest =>
    rintro ts rest us' ⟨x, rfl, hx⟩ heq
    obtain ⟨u, vs, htokens, hu⟩ := x.exists_tokens hx
    rw [htokens] at heq
    obtain ⟨rfl, -⟩ := List.cons.inj heq
    exact hrest.of_cons hu
  | params hopen hps hname hclose => exact hopeless_params hopen hps hname.of_cons hclose.of_cons
  | function hopen hps hclose harrow hnone _ ih =>
    exact hopeless_function hopen hps hclose harrow hnone ih
  | called hp _ ih => exact hopeless_called hp ih
  | arguments hstarts hclose => exact hopeless_arguments hstarts.of_cons hclose.of_cons
  | item hstarts _ ih => exact hopeless_item hstarts ih
  | itemBefore hx _ ih => exact hopeless_itemBefore hx ih
  | call hopen _ ih => exact hopeless_call hopen ih
  | callBefore hopen hitems hclose _ ih => exact hopeless_callBefore hopen hitems hclose ih
  | result hdefine hstarts => exact hopeless_result hdefine.of_cons hstarts.of_cons
  | inResult hstarts _ ih => exact hopeless_inResult hstarts ih
  | unnamed hdefine hname => exact hopeless_unnamed hdefine hname.of_cons
  | inBody hdefine _ hcolon hnone _ ih => exact hopeless_inBody hdefine hcolon hnone ih
  | clauseBefore hdefine _ hcolon hd _ ih => exact hopeless_clauseBefore hdefine hcolon hd ih

end DrawLang.Grammar
