/-
DrawLang/Proofs/Grammar/Stuck.lean

Where reading gets stuck.  A row of tokens is read from left to right, and each
token that is passed over belongs to a phrase that was begun before it.  So a
reader that cannot go on is in the midst of some phrases, one inside the other;
`Stuck` says how they are nested, what has been read of each, and which
constructs the innermost one wants next.

The cases of `Stuck` are those of the grammar, and six of them have nothing
inside: these are the places where a report can come from.  What has been read
was read greedily, so a case also says that the next token did not continue what
is before it.

Main statement: whenever the rules report missing constructs, they are stuck in
this sense, with just these constructs wanted (`sticks_scope`).
-/
import DrawLang.Proofs.Grammar.Acceptance

namespace DrawLang.Grammar

/-- The phrases in whose midst reading can be. -/
inductive Phrase where
  | expression
  /-- Expressions and the closing parenthesis behind them. -/
  | arguments
  /-- Calls behind an expression that stops there. -/
  | calls (stop : Nat)
  | scope

/-- The tokens are those of the phrase, which is derived in front of `rest`. -/
def Phrase.Derives (ts rest : List Token) : Phrase → Prop
  | .expression => ∃ x : Expression, x.tokens = ts ∧ x.Derives rest
  | .arguments => ∃ xs closing, itemsTokens xs ++ [closing] = ts ∧
      ItemsDerive (closing :: rest) xs ∧ closing.kind = .closeParen
  | .calls stop => ∃ calls, callsTokens calls = ts ∧ CallsDerive rest stop calls
  | .scope => ∃ d : Program, d.tokens = ts ∧ d.Derives rest

/-- The next token has the property. -/
def Next (P : Token → Prop) (ts : List Token) : Prop := ∃ t us, ts = t :: us ∧ P t

/-- Reading a phrase has passed over some tokens and is stuck in front of `rest`,
where one of some constructs is wanted. -/
inductive Stuck (rest : List Token) : Phrase → List Token → List Construct → Prop
  /-- No expression starts. -/
  | primary (hrest : Ahead (·.startsExpression = true) rest) :
    Stuck rest .expression [] [.expression]
  /-- Parameters neither go on nor end. -/
  | params {opening : Token} {ps : List Token} (hopen : opening.kind = .openParen)
    (hps : ∀ t ∈ ps, t.kind = .identifier) (hname : Ahead (·.kind = .identifier) rest)
    (hclose : Ahead (·.kind = .closeParen) rest) :
    Stuck rest .expression (opening :: ps) [.identifier, .closeParen]
  /-- The body of a function is stuck. -/
  | function {opening closing : Token} {ps : List Token} {arrow : Option Token}
    {done : List Token} {cs : List Construct} (hopen : opening.kind = .openParen)
    (hps : ∀ t ∈ ps, t.kind = .identifier) (hclose : closing.kind = .closeParen)
    (harrow : ∀ t ∈ arrow, t.kind = .arrow)
    (hnone : arrow = none → Ahead (·.kind = .arrow) (done ++ rest))
    (body : Stuck rest .expression done cs) :
    Stuck rest .expression (opening :: (ps ++ closing :: (arrow.toList ++ done))) cs
  /-- Calls behind a primary expression are stuck. -/
  | called {p : Primary} {done : List Token} {cs : List Construct}
    (hp : p.Derives (done ++ rest)) (calls : Stuck rest (.calls p.stop) done cs) :
    Stuck rest .expression (p.tokens ++ done) cs
  /-- Arguments neither go on nor end. -/
  | arguments (hstarts : Ahead (·.startsExpression = true) rest)
    (hclose : Ahead (·.kind = .closeParen) rest) :
    Stuck rest .arguments [] [.expression, .closeParen]
  /-- An argument is stuck. -/
  | item {done : List Token} {cs : List Construct}
    (hstarts : Next (·.startsExpression = true) (done ++ rest))
    (item : Stuck rest .expression done cs) : Stuck rest .arguments done cs
  /-- Arguments are stuck behind one. -/
  | itemBefore {x : Expression} {done : List Token} {cs : List Construct}
    (hx : x.Derives (done ++ rest)) (items : Stuck rest .arguments done cs) :
    Stuck rest .arguments (x.tokens ++ done) cs
  /-- The arguments of a call are stuck. -/
  | call {opening : Token} {done : List Token} {cs : List Construct}
    (hopen : opening.kind = .openParen) (items : Stuck rest .arguments done cs) :
    Stuck rest (.calls opening.offset) (opening :: done) cs
  /-- Calls are stuck behind one. -/
  | callBefore {opening closing : Token} {xs : List Expression} {done : List Token}
    {cs : List Construct} (hopen : opening.kind = .openParen)
    (hitems : ItemsDerive (closing :: (done ++ rest)) xs) (hclose : closing.kind = .closeParen)
    (calls : Stuck rest (.calls closing.stop) done cs) :
    Stuck rest (.calls opening.offset) (opening :: (itemsTokens xs ++ closing :: done)) cs
  /-- Neither a definition nor the result of a scope starts. -/
  | result (hdefine : Ahead (·.kind = .define) rest)
    (hstarts : Ahead (·.startsExpression = true) rest) :
    Stuck rest .scope [] [.definition, .expression]
  /-- The result of a scope is stuck. -/
  | inResult {done : List Token} {cs : List Construct}
    (hstarts : Next (·.startsExpression = true) (done ++ rest))
    (result : Stuck rest .expression done cs) : Stuck rest .scope done cs
  /-- A definition has no name. -/
  | unnamed {keyword : Token} (hdefine : keyword.kind = .define)
    (hname : Ahead (·.kind = .identifier) rest) : Stuck rest .scope [keyword] [.identifier]
  /-- The body of a definition is stuck. -/
  | inBody {keyword name : Token} {colon : Option Token} {done : List Token}
    {cs : List Construct} (hdefine : keyword.kind = .define) (hname : name.kind = .identifier)
    (hcolon : ∀ t ∈ colon, t.kind = .colon)
    (hnone : colon = none → Ahead (·.kind = .colon) (done ++ rest))
    (body : Stuck rest .scope done cs) :
    Stuck rest .scope (keyword :: name :: (colon.toList ++ done)) cs
  /-- A scope is stuck behind a definition. -/
  | clauseBefore {keyword name : Token} {colon : Option Token} {d : Program}
    {done : List Token} {cs : List Construct} (hdefine : keyword.kind = .define)
    (hname : name.kind = .identifier) (hcolon : ∀ t ∈ colon, t.kind = .colon)
    (hd : d.Derives (done ++ rest)) (scope : Stuck rest .scope done cs) :
    Stuck rest .scope (keyword :: name :: (colon.toList ++ (d.tokens ++ done))) cs

/-! ### Behind rows -/

section

variable {rest done : List Token} {cs : List Construct}

/-- Arguments are stuck behind some. -/
theorem Stuck.itemsBefore (h : Stuck rest .arguments done cs) :
    (xs : List Expression) → ItemsDerive (done ++ rest) xs →
      Stuck rest .arguments (itemsTokens xs ++ done) cs
  | [], _ => h
  | x :: xs, hxs => by
    rw [ItemsDerive] at hxs
    rw [itemsTokens, List.append_assoc]
    refine .itemBefore ?_ (h.itemsBefore xs hxs.2)
    rw [List.append_assoc]
    exact hxs.1

/-- A scope is stuck behind some definitions. -/
theorem Stuck.clausesBefore (h : Stuck rest .scope done cs) :
    (clauses : List (Clause Program)) → ClausesDerive (done ++ rest) clauses →
      Stuck rest .scope (clausesTokens clauses ++ done) cs
  | [], _ => h
  | ⟨keyword, name, colon, d⟩ :: clauses, hclauses => by
    rw [ClausesDerive] at hclauses
    obtain ⟨hdefine, hname, hcolon, hd, hbehind⟩ := hclauses
    have htokens : clausesTokens (⟨keyword, name, colon, d⟩ :: clauses) ++ done =
        keyword :: name :: (colon.toList ++ (d.tokens ++ (clausesTokens clauses ++ done))) := by
      simp only [clausesTokens, List.cons_append, List.append_assoc]
    rw [htokens]
    refine .clauseBefore hdefine hname hcolon ?_ (h.clausesBefore clauses hbehind)
    rw [List.append_assoc]
    exact hd

end

/-! ### The rules -/

/-- Where reading the phrase reports missing constructs it is stuck. -/
def Sticks {α : Type} (phrase : Phrase) (ts : List Token) (x : Except Dead α) : Prop :=
  ∀ rest cs, x = .error ⟨rest, .missing cs⟩ → ∃ done, done ++ rest = ts ∧ Stuck rest phrase done cs

/-- Where the rule reports missing constructs it is stuck. -/
def RuleSticks {α : Type} (r : Rule α) (phrase : Phrase) : Prop := ∀ ts, Sticks phrase ts (r ts)

theorem ahead_of_skip {k : TokenKind} {ts : List Token} (h : Rule.skip k ts = ts) :
    Ahead (·.kind = k) ts := by
  rintro t us rfl ht
  rw [Rule.skip, if_pos ht] at h
  exact absurd (congrArg List.length h) (by simp)

/-- An optional token is passed over, or it is not there. -/
theorem exists_passed (k : TokenKind) (ts : List Token) :
    ∃ o : Option Token, o.toList ++ Rule.skip k ts = ts ∧ (∀ t ∈ o, t.kind = k) ∧
      (o = none → Ahead (·.kind = k) (Rule.skip k ts)) := by
  obtain ⟨o, hskip, ho⟩ := exists_skipped k ts
  refine ⟨o, hskip, ho, ?_⟩
  rintro rfl
  have hsame : Rule.skip k ts = ts := hskip
  rw [hsame]
  exact ahead_of_skip hsame

section

variable {rₑ : Rule Expr} {r : Rule Scope} {n : Nat}

theorem sticks_expressions (hr : ReadsExpressions rₑ n) (hs : RuleSticks rₑ .expression)
    (ts : List Token) : Sticks .arguments ts (Rule.expressions rₑ ts) := by
  intro rest cs h
  fun_induction Rule.expressions rₑ ts with
  | case1 => cases h
  | case2 t us hstarts d hread =>
    cases h
    obtain ⟨done, hdone, hstuck⟩ := hs _ _ _ hread
    exact ⟨done, hdone, .item ⟨t, us, hdone, hstarts⟩ hstuck⟩
  -- one expression is read, and one behind it is stuck
  | case3 t us hstarts e mid hlt hread d hmany ih =>
    cases h
    obtain ⟨x, htokens, hx, -, -⟩ := (hr _ _ _).1 ⟨hlt, hread⟩
    obtain ⟨done, rfl, hstuck⟩ := ih hmany
    exact ⟨x.tokens ++ done, by rw [List.append_assoc, htokens], .itemBefore hx hstuck⟩
  | case4 => cases h
  | case5 => cases h

/-- Where the items of a list have been read and the list is not closed, it is stuck. -/
theorem stuck_closing (hr : ReadsExpressions rₑ n) {ts rest : List Token} {es : List Expr}
    (h : ReadsMany (Rule.expressions rₑ ts) es rest) (hclose : Ahead (·.kind = .closeParen) rest) :
    ∃ done, done ++ rest = ts ∧ Stuck rest .arguments done [.expression, .closeParen] := by
  obtain ⟨xs, rfl, hxs, -, -, hstarts⟩ := exists_items hr h
  have hstuck := Stuck.itemsBefore (.arguments hstarts hclose) xs hxs
  rw [List.append_nil] at hstuck
  exact ⟨itemsTokens xs, rfl, hstuck⟩

theorem sticks_argumentLists (hr : ReadsExpressions rₑ n) (hs : RuleSticks rₑ .expression)
    (stop : Nat) (ts : List Token) : Sticks (.calls stop) ts (Rule.argumentLists rₑ stop ts) := by
  intro rest cs h
  fun_induction Rule.argumentLists rₑ stop ts with
  | case1 => cases h
  | case2 stop t us hopen d hmany =>
    cases h
    obtain ⟨done, rfl, hstuck⟩ := sticks_expressions hr hs _ _ _ hmany
    exact ⟨t :: done, rfl, hopen.2 ▸ .call hopen.1 hstuck⟩
  | case3 stop t us hopen items hlen hmany =>
    cases h
    obtain ⟨done, rfl, hstuck⟩ := stuck_closing hr ⟨hlen, hmany⟩ ahead_nil
    exact ⟨t :: done, rfl, hopen.2 ▸ .call hopen.1 hstuck⟩
  -- one argument list is read, and one behind it is stuck
  | case4 stop t us hopen items u mid hlen hmany hclose d hlists ih =>
    cases h
    obtain ⟨xs, rfl, hxs, -, -, -⟩ := exists_items hr ⟨hlen, hmany⟩
    obtain ⟨done, rfl, hstuck⟩ := ih hlists
    refine ⟨t :: (itemsTokens xs ++ u :: done), ?_, hopen.2 ▸ .callBefore hopen.1 hxs hclose hstuck⟩
    simp only [List.cons_append, List.append_assoc]
  | case5 => cases h
  | case6 stop t us hopen items u mid hlen hmany hclose =>
    cases h
    obtain ⟨done, rfl, hstuck⟩ := stuck_closing hr ⟨hlen, hmany⟩ (ahead_cons hclose mid)
    exact ⟨t :: done, rfl, hopen.2 ▸ .call hopen.1 hstuck⟩
  | case7 => cases h

theorem sticks_function (hs : RuleSticks rₑ .expression) {opening : Token}
    (hopen : opening.kind = .openParen) (ts rest : List Token) (cs : List Construct)
    (h : Rule.function rₑ opening.offset ts = .error ⟨rest, .missing cs⟩) :
    ∃ done, done ++ rest = opening :: ts ∧ Stuck rest .expression done cs := by
  obtain ⟨ps, mid, rfl, hps, hmid⟩ := exists_names ts
  obtain ⟨hle, hparams⟩ := params_rest hps hmid
  rw [Rule.function, hparams] at h
  rcases mid with - | ⟨closing, us⟩
  · cases h
    exact ⟨opening :: ps, rfl, .params hopen hps hmid ahead_nil⟩
  · simp only at h
    split at h
    · rename_i hclose
      split at h
      · rename_i d hread
        cases h
        obtain ⟨arrow, hskip, harrow, hnone⟩ := exists_passed .arrow us
        obtain ⟨done, hdone, hstuck⟩ := hs _ _ _ hread
        refine ⟨opening :: (ps ++ closing :: (arrow.toList ++ done)), ?_,
          .function hopen hps hclose harrow (hdone ▸ hnone) hstuck⟩
        simp only [List.cons_append, List.append_assoc, hdone, hskip]
      · cases h
    · rename_i hclose
      cases h
      exact ⟨opening :: ps, rfl, .params hopen hps hmid (ahead_cons hclose us)⟩

theorem sticks_primary (hs : RuleSticks rₑ .expression) :
    RuleSticks (Rule.primary rₑ) .expression := by
  rintro (- | ⟨t, us⟩) rest cs h
  · cases h
    exact ⟨[], rfl, .primary ahead_nil⟩
  · rw [Rule.primary] at h
    rcases hatom : t.atom? with - | a
    · rw [hatom] at h
      simp only at h
      split at h
      · rename_i hopen
        split at h
        · rename_i d hfunction
          cases h
          exact sticks_function hs hopen us rest cs hfunction
        · cases h
      · rename_i hopen
        cases h
        refine ⟨[], rfl, .primary (ahead_cons ?_ us)⟩
        rw [Token.startsExpression, hatom, decide_eq_false hopen]
        exact Bool.false_ne_true
    · rw [hatom] at h
      cases h

theorem sticks_callChain (hr : ReadsExpressions rₑ n) (hs : RuleSticks rₑ .expression) :
    RuleSticks (Rule.callChain rₑ) .expression := by
  intro ts rest cs h
  rw [Rule.callChain] at h
  split at h
  · rename_i d hprimary
    cases h
    exact sticks_primary hs ts rest cs hprimary
  · rename_i callee mid hlt hprimary
    split at h
    · rename_i d hlists
      cases h
      obtain ⟨p, htokens, hp, -, rfl⟩ := (primary_reads_iff hr).1 ⟨hlt, hprimary⟩
      rw [p.span_tree] at hlists
      obtain ⟨done, rfl, hstuck⟩ := sticks_argumentLists hr hs _ _ _ _ hlists
      exact ⟨p.tokens ++ done, by rw [List.append_assoc, htokens], .called hp hstuck⟩
    · cases h

/-- **Where the rule for expressions reports missing constructs it is stuck.** -/
theorem sticks_expression (levels : Nat) : RuleSticks (Rule.expression levels) .expression := by
  induction levels with
  | zero =>
    intro ts rest cs h
    cases h
  | succ levels ih => exact sticks_callChain (readsExpressions_expression levels) ih

/-! ### Scopes -/

theorem sticks_definitions (hr : ReadsPrograms r n) (hs : RuleSticks r .scope) (ts : List Token) :
    Sticks .scope ts (Rule.definitions r ts) := by
  intro rest cs h
  fun_induction Rule.definitions r ts with
  | case1 => cases h
  | case2 t hdefine =>
    cases h
    exact ⟨[t], rfl, .unnamed hdefine ahead_nil⟩
  | case3 t hdefine u vs hname d hread =>
    cases h
    obtain ⟨colon, hskip, hcolon, hnone⟩ := exists_passed .colon vs
    obtain ⟨done, hdone, hstuck⟩ := hs _ _ _ hread
    refine ⟨t :: u :: (colon.toList ++ done), ?_,
      .inBody hdefine hname hcolon (hdone ▸ hnone) hstuck⟩
    simp only [List.cons_append, List.append_assoc, hdone, hskip]
  -- one definition is read, and one behind it is stuck
  | case4 t hdefine u vs hname body mid hlt hread _ d hmany ih =>
    cases h
    obtain ⟨colon, hskip, hcolon⟩ := exists_skipped .colon vs
    obtain ⟨p, htokens, hp, -, -⟩ := (hr _ _ _).1 ⟨hlt, hread⟩
    obtain ⟨done, rfl, hstuck⟩ := ih hmany
    refine ⟨t :: u :: (colon.toList ++ (p.tokens ++ done)), ?_,
      .clauseBefore hdefine hname hcolon hp hstuck⟩
    simp only [List.cons_append, List.append_assoc, htokens, hskip]
  | case5 => cases h
  | case6 t hdefine u vs hname =>
    cases h
    exact ⟨[t], rfl, .unnamed hdefine (ahead_cons hname vs)⟩
  | case7 => cases h

/-- Where the definitions of a scope have been read and its result is missing, it is stuck. -/
theorem stuck_result (hr : ReadsPrograms r n) {ts rest : List Token} {ds : List (Definition Scope)}
    (h : ReadsMany (Rule.definitions r ts) ds rest)
    (hstarts : Ahead (·.startsExpression = true) rest) :
    ∃ done, done ++ rest = ts ∧ Stuck rest .scope done [.definition, .expression] := by
  obtain ⟨clauses, rfl, hclauses, -, -, hdefine⟩ := exists_clauses hr h
  have hstuck := Stuck.clausesBefore (.result hdefine hstarts) clauses hclauses
  rw [List.append_nil] at hstuck
  exact ⟨clausesTokens clauses, rfl, hstuck⟩

theorem sticks_body (hr : ReadsPrograms r n) (hs : RuleSticks r .scope)
    (hsₑ : RuleSticks rₑ .expression) : RuleSticks (Rule.body r rₑ) .scope := by
  intro ts rest cs h
  rw [Rule.body] at h
  split at h
  · rename_i d hdefinitions
    cases h
    exact sticks_definitions hr hs ts rest cs hdefinitions
  · rename_i ds hle hdefinitions
    cases h
    exact stuck_result hr ⟨hle, hdefinitions⟩ ahead_nil
  · rename_i ds t us hle hdefinitions
    split at h
    · rename_i hstarts
      split at h
      · rename_i d hread
        cases h
        obtain ⟨clauses, rfl, hclauses, -, -, -⟩ := exists_clauses hr ⟨hle, hdefinitions⟩
        obtain ⟨done, hdone, hstuck⟩ := hsₑ _ _ _ hread
        rw [← hdone] at hclauses ⊢
        exact ⟨clausesTokens clauses ++ done, List.append_assoc _ _ _,
          Stuck.clausesBefore (.inResult ⟨t, us, hdone, hstarts⟩ hstuck) clauses hclauses⟩
      · cases h
    · rename_i hstarts
      cases h
      exact stuck_result hr ⟨hle, hdefinitions⟩ (ahead_cons hstarts us)

end

/-- **Where the rule for scopes reports missing constructs it is stuck.** -/
theorem sticks_scope (levels : Nat) : RuleSticks (Rule.scope levels) .scope := by
  induction levels with
  | zero =>
    intro ts rest cs h
    cases h
  | succ levels ih => exact sticks_body (readsPrograms_scope levels) ih (sticks_expression levels)

end DrawLang.Grammar
