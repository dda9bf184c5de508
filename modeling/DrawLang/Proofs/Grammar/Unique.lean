/-
DrawLang/Proofs/Grammar/Unique.lean

The grammar is unambiguous.  Two derivations that are followed by something are
the same, and are followed by the same, if all their tokens are.  At every place
the next token tells which way a derivation goes: whether another definition,
expression or call follows, and whether an optional token is there.

Main statement: `Program.unique`, by induction on one of the derivations.
-/
import DrawLang.Proofs.Grammar.Derivation

namespace DrawLang

theorem Token.atom?_eq_none_of_openParen {t : Token} (h : t.kind = .openParen) :
    t.atom? = none := by
  rw [Token.atom?, h]

theorem Token.startsExpression_of_atom {t : Token} {a : Atom} (h : t.atom? = some a) :
    t.startsExpression = true := by
  rw [Token.startsExpression, h]
  rfl

theorem Token.startsExpression_of_openParen {t : Token} (h : t.kind = .openParen) :
    t.startsExpression = true := by
  rw [Token.startsExpression, decide_eq_true h, Bool.or_true]

/-- The kinds of the tokens that no expression starts with. -/
def TokenKind.separators : List TokenKind := [.closeParen, .arrow, .colon, .define, .endOfInput]

theorem Token.startsExpression_eq_false {t : Token} (h : t.kind ∈ TokenKind.separators) :
    t.startsExpression = false := by
  rw [Token.startsExpression, Token.atom?]
  rcases e : t.kind <;> rw [e] at h <;> simp_all [TokenKind.separators]

namespace Grammar

/-! ### The first token of a derivation -/

/-- The next token, if there is one, does not have the property. -/
def Ahead (P : Token → Prop) (ts : List Token) : Prop := ∀ t us, ts = t :: us → ¬ P t

theorem ahead_nil {P : Token → Prop} : Ahead P [] := by
  rintro t us ⟨⟩

theorem ahead_cons {P : Token → Prop} {t : Token} (h : ¬ P t) (ts : List Token) :
    Ahead P (t :: ts) := by
  rintro _ _ ⟨⟩
  exact h

/-- A derived expression starts with a token that can start one. -/
theorem Expression.exists_tokens {rest : List Token} {x : Expression} (h : x.Derives rest) :
    ∃ t us, x.tokens = t :: us ∧ t.startsExpression = true := by
  rcases x with ⟨⟨t, a⟩ | ⟨opening, params, closing, arrow, body⟩, calls⟩
  · rw [Expression.Derives, Primary.Derives] at h
    exact ⟨t, callsTokens calls, by rw [Expression.tokens, Primary.tokens, List.singleton_append],
      Token.startsExpression_of_atom h.1⟩
  · rw [Expression.Derives, Primary.Derives] at h
    refine ⟨opening, params ++ closing :: arrow.toList ++ body.tokens ++ callsTokens calls, ?_,
      Token.startsExpression_of_openParen h.1.1⟩
    rw [Expression.tokens, Primary.tokens, List.cons_append, List.cons_append, List.cons_append]

/-- A derived expression does not start with a separator. -/
theorem Expression.ahead {k : TokenKind} (hk : k ∈ TokenKind.separators) {rest : List Token}
    {x : Expression} (h : x.Derives rest) (more : List Token) :
    Ahead (·.kind = k) (x.tokens ++ more) := by
  obtain ⟨t, us, htokens, hstarts⟩ := x.exists_tokens h
  rw [htokens, List.cons_append]
  refine ahead_cons (fun (ht : t.kind = k) => ?_) _
  rw [Token.startsExpression_eq_false (ht ▸ hk)] at hstarts
  cases hstarts

/-- No expression follows in front of a closing parenthesis. -/
theorem ahead_closing {t : Token} (h : t.kind = .closeParen) (ts : List Token) :
    Ahead (·.startsExpression = true) (t :: ts) := by
  refine ahead_cons ?_ ts
  rw [Token.startsExpression_eq_false (by simp [h, TokenKind.separators])]
  exact Bool.false_ne_true

/-! ### Rows of tokens -/

/-- A row of tokens with a property ends where a token does not have it. -/
theorem row_unique {P : Token → Prop} {ps ps' rest rest' : List Token} (hps : ∀ t ∈ ps, P t)
    (hps' : ∀ t ∈ ps', P t) (hrest : Ahead P rest) (hrest' : Ahead P rest')
    (h : ps ++ rest = ps' ++ rest') : ps = ps' ∧ rest = rest' := by
  induction ps generalizing ps' with
  | nil =>
    rcases ps' with - | ⟨t, ps'⟩
    · exact ⟨rfl, h⟩
    · exact absurd (hps' t List.mem_cons_self) (hrest t _ h)
  | cons t ps ih =>
    rcases ps' with - | ⟨t', ps'⟩
    · exact absurd (hps t List.mem_cons_self) (hrest' t _ h.symm)
    · rw [List.cons_append, List.cons_append] at h
      obtain ⟨rfl, htail⟩ := List.cons.inj h
      rw [List.forall_mem_cons] at hps hps'
      obtain ⟨rfl, heq⟩ := ih hps.2 hps'.2 htail
      exact ⟨rfl, heq⟩

theorem option_unique {P : Token → Prop} {o o' : Option Token} {rest rest' : List Token}
    (ho : ∀ t ∈ o, P t) (ho' : ∀ t ∈ o', P t) (hrest : Ahead P rest) (hrest' : Ahead P rest')
    (h : o.toList ++ rest = o'.toList ++ rest') : o = o' ∧ rest = rest' := by
  rcases o with - | t <;> rcases o' with - | t'
  · exact ⟨rfl, h⟩
  · exact absurd (ho' t' rfl) (hrest t' _ h)
  · exact absurd (ho t rfl) (hrest' t _ h.symm)
  · obtain ⟨rfl, heq⟩ := List.cons.inj h
    exact ⟨rfl, heq⟩

/-! ### Expressions -/

mutual

/-- Two expressions that are followed by something are the same if all tokens are. -/
theorem Expression.unique : (x x' : Expression) → {rest rest' : List Token} → x.Derives rest →
    x'.Derives rest' → x.tokens ++ rest = x'.tokens ++ rest' → x = x' ∧ rest = rest'
  | .mk p calls, .mk p' calls', rest, rest', h, h', heq => by
    rw [Expression.Derives] at h h'
    rw [Expression.tokens, Expression.tokens, List.append_assoc, List.append_assoc] at heq
    obtain ⟨rfl, hcalls⟩ := Primary.unique p p' h.1 h'.1 heq
    obtain ⟨rfl, rfl⟩ := calls_unique calls calls' h.2 h'.2 hcalls
    exact ⟨rfl, rfl⟩

theorem Primary.unique : (p p' : Primary) → {rest rest' : List Token} → p.Derives rest →
    p'.Derives rest' → p.tokens ++ rest = p'.tokens ++ rest' → p = p' ∧ rest = rest'
  | .atom t a, .atom t' a', rest, rest', h, h', heq => by
    rw [Primary.Derives] at h h'
    obtain ⟨rfl, rfl⟩ := List.cons.inj heq
    obtain rfl := Option.some.inj (h.symm.trans h')
    exact ⟨rfl, rfl⟩
  | .atom t a, .function opening params closing arrow body, rest, rest', h, h', heq => by
    rw [Primary.Derives] at h
    rw [Primary.Derives] at h'
    obtain ⟨rfl, -⟩ := List.cons.inj heq
    rw [Token.atom?_eq_none_of_openParen h'.1] at h
    cases h
  | .function opening params closing arrow body, .atom t a, rest, rest', h, h', heq => by
    rw [Primary.Derives] at h
    rw [Primary.Derives] at h'
    obtain ⟨rfl, -⟩ := List.cons.inj heq
    rw [Token.atom?_eq_none_of_openParen h.1] at h'
    cases h'
  | .function opening params closing arrow body, .function opening' params' closing' arrow' body',
      rest, rest', h, h', heq => by
    rw [Primary.Derives] at h h'
    obtain ⟨-, hparams, hclosing, harrow, hbody⟩ := h
    obtain ⟨-, hparams', hclosing', harrow', hbody'⟩ := h'
    simp only [Primary.tokens, List.cons_append, List.append_assoc, List.cons.injEq] at heq
    obtain ⟨rfl, hbehind⟩ := heq
    -- the names end at the closing parenthesis, and no arrow starts the body
    have hnot : ∀ t : Token, t.kind = .closeParen → t.kind ≠ .identifier := fun t ht ht' =>
      TokenKind.noConfusion (ht.symm.trans ht')
    obtain ⟨rfl, hend⟩ := row_unique hparams hparams' (ahead_cons (hnot _ hclosing) _)
      (ahead_cons (hnot _ hclosing') _) hbehind
    obtain ⟨rfl, hright⟩ := List.cons.inj hend
    have hsep : .arrow ∈ TokenKind.separators := by simp [TokenKind.separators]
    obtain ⟨rfl, hrow⟩ := option_unique harrow harrow' (Expression.ahead hsep hbody rest)
      (Expression.ahead hsep hbody' rest') hright
    obtain ⟨rfl, rfl⟩ := Expression.unique body body' hbody hbody' hrow
    exact ⟨rfl, rfl⟩

theorem calls_unique : (calls calls' : List (Call Expression)) → {stop : Nat} →
    {rest rest' : List Token} → CallsDerive rest stop calls → CallsDerive rest' stop calls' →
      callsTokens calls ++ rest = callsTokens calls' ++ rest' → calls = calls' ∧ rest = rest'
  | [], [], _, _, _, _, _, heq => ⟨rfl, heq⟩
  | [], ⟨opening, items, closing⟩ :: calls', stop, rest, rest', h, h', heq => by
    rw [CallsDerive] at h
    rw [CallsDerive] at h'
    -- the call on the right touches where the calls on the left are to end
    exact absurd ⟨opening, _, heq, h'.1, h'.2.1⟩ h
  | ⟨opening, items, closing⟩ :: calls, [], stop, rest, rest', h, h', heq => by
    rw [CallsDerive] at h
    rw [CallsDerive] at h'
    exact absurd ⟨opening, _, heq.symm, h.1, h.2.1⟩ h'
  | ⟨opening, items, closing⟩ :: calls, ⟨opening', items', closing'⟩ :: calls', stop, rest, rest',
      h, h', heq => by
    rw [CallsDerive] at h h'
    obtain ⟨-, -, hitems, hclosing, hcalls⟩ := h
    obtain ⟨-, -, hitems', hclosing', hcalls'⟩ := h'
    simp only [callsTokens, List.cons_append, List.append_assoc, List.cons.injEq] at heq
    obtain ⟨rfl, hbehind⟩ := heq
    obtain ⟨rfl, hend⟩ := items_unique items items' hitems hitems' (ahead_closing hclosing _)
      (ahead_closing hclosing' _) hbehind
    obtain ⟨rfl, hright⟩ := List.cons.inj hend
    obtain ⟨rfl, rfl⟩ := calls_unique calls calls' hcalls hcalls' hright
    exact ⟨rfl, rfl⟩

theorem items_unique : (xs xs' : List Expression) → {rest rest' : List Token} →
    ItemsDerive rest xs → ItemsDerive rest' xs' → Ahead (·.startsExpression = true) rest →
      Ahead (·.startsExpression = true) rest' → itemsTokens xs ++ rest = itemsTokens xs' ++ rest' →
        xs = xs' ∧ rest = rest'
  | [], [], _, _, _, _, _, _, heq => ⟨rfl, heq⟩
  | [], x :: xs, rest, rest', h, h', hrest, hrest', heq => by
    rw [ItemsDerive] at h'
    obtain ⟨t, us, htokens, hstarts⟩ := x.exists_tokens h'.1
    rw [itemsTokens, itemsTokens, htokens] at heq
    exact absurd hstarts (hrest t _ heq)
  | x :: xs, [], rest, rest', h, h', hrest, hrest', heq => by
    rw [ItemsDerive] at h
    obtain ⟨t, us, htokens, hstarts⟩ := x.exists_tokens h.1
    rw [itemsTokens, itemsTokens, htokens] at heq
    exact absurd hstarts (hrest' t _ heq.symm)
  | x :: xs, x' :: xs', rest, rest', h, h', hrest, hrest', heq => by
    rw [ItemsDerive] at h h'
    rw [itemsTokens, itemsTokens, List.append_assoc, List.append_assoc] at heq
    obtain ⟨rfl, hmore⟩ := Expression.unique x x' h.1 h'.1 heq
    obtain ⟨rfl, rfl⟩ := items_unique xs xs' h.2 h'.2 hrest hrest' hmore
    exact ⟨rfl, rfl⟩

end

/-! ### Scopes -/

/-- A scope does not start with a colon. -/
theorem Program.ahead_colon {rest : List Token} {d : Program} (h : d.Derives rest)
    (more : List Token) : Ahead (·.kind = .colon) (d.tokens ++ more) := by
  rcases d with ⟨- | ⟨⟨keyword, name, colon, body⟩, clauses⟩, result⟩
  · rw [Program.Derives] at h
    rw [Program.tokens, clausesTokens, List.nil_append]
    exact Expression.ahead (by simp [TokenKind.separators]) h.2 more
  · rw [Program.Derives, ClausesDerive] at h
    rw [Program.tokens, clausesTokens]
    exact ahead_cons (fun ht => TokenKind.noConfusion (ht.symm.trans h.1.1)) _

mutual

/-- **Two scopes that are followed by something are the same if all tokens are.** -/
theorem Program.unique : (d d' : Program) → {rest rest' : List Token} → d.Derives rest →
    d'.Derives rest' → d.tokens ++ rest = d'.tokens ++ rest' → d = d' ∧ rest = rest'
  | .mk clauses result, .mk clauses' result', rest, rest', h, h', heq => by
    rw [Program.Derives] at h h'
    rw [Program.tokens, Program.tokens, List.append_assoc, List.append_assoc] at heq
    have hsep : .define ∈ TokenKind.separators := by simp [TokenKind.separators]
    obtain ⟨rfl, hresult⟩ := clauses_unique clauses clauses' h.1 h'.1
      (Expression.ahead hsep h.2 rest) (Expression.ahead hsep h'.2 rest') heq
    obtain ⟨rfl, rfl⟩ := Expression.unique result result' h.2 h'.2 hresult
    exact ⟨rfl, rfl⟩

theorem clauses_unique : (cs cs' : List (Clause Program)) → {rest rest' : List Token} →
    ClausesDerive rest cs → ClausesDerive rest' cs' → Ahead (·.kind = .define) rest →
      Ahead (·.kind = .define) rest' → clausesTokens cs ++ rest = clausesTokens cs' ++ rest' →
        cs = cs' ∧ rest = rest'
  | [], [], _, _, _, _, _, _, heq => ⟨rfl, heq⟩
  | [], ⟨keyword, name, colon, body⟩ :: cs, rest, rest', h, h', hrest, hrest', heq => by
    rw [ClausesDerive] at h'
    exact absurd h'.1 (hrest keyword _ heq)
  | ⟨keyword, name, colon, body⟩ :: cs, [], rest, rest', h, h', hrest, hrest', heq => by
    rw [ClausesDerive] at h
    exact absurd h.1 (hrest' keyword _ heq.symm)
  | ⟨keyword, name, colon, body⟩ :: cs, ⟨keyword', name', colon', body'⟩ :: cs', rest, rest', h, h',
      hrest, hrest', heq => by
    rw [ClausesDerive] at h h'
    obtain ⟨-, -, hcolon, hbody, hcs⟩ := h
    obtain ⟨-, -, hcolon', hbody', hcs'⟩ := h'
    simp only [clausesTokens, List.cons_append, List.append_assoc, List.cons.injEq] at heq
    obtain ⟨rfl, rfl, hbehind⟩ := heq
    obtain ⟨rfl, hrow⟩ := option_unique hcolon hcolon' (Program.ahead_colon hbody _)
      (Program.ahead_colon hbody' _) hbehind
    obtain ⟨rfl, hmore⟩ := Program.unique body body' hbody hbody' hrow
    obtain ⟨rfl, rfl⟩ := clauses_unique cs cs' hcs hcs' hrest hrest' hmore
    exact ⟨rfl, rfl⟩

end

end Grammar

end DrawLang
