/-
DrawLang/Proofs/Grammar/Reading.lean

What the rule for expressions reads.  With some levels left it reads exactly the
derivations that are no higher than that: from the tokens of such a derivation
and any rest in front of which it is one, the rule yields the tree it describes
and leaves that rest, and whatever the rule yields comes from such a derivation.

For each rule this is an equivalence, given the one for the rule it takes as a
parameter.  From left to right it follows the recursion of the rule, and from
right to left the derivation.  Loops are greedy, so a list of derivations has to
end where the next token does not start another one.

Main statement: `readsExpressions_expression`, by induction on the levels.
-/
import DrawLang.Proofs.Grammar.Unique

namespace DrawLang

/-- The rule reads a value from the tokens and leaves a rest. -/
def Rule.Reads {α : Type} (r : Rule α) (ts : List Token) (value : α) (rest : List Token) : Prop :=
  ∃ h, r ts = .ok ⟨value, rest, h⟩

/-- The values are read from the tokens and the rest is left. -/
def ReadsMany {α : Type} {ts : List Token} (result : Except Dead (ParsedMany ts α))
    (values : List α) (rest : List Token) : Prop :=
  ∃ h, result = .ok ⟨values, rest, h⟩

namespace Grammar

/-- The rule reads the expressions that are at most that high. -/
def ReadsExpressions (r : Rule Expr) (n : Nat) : Prop :=
  ∀ ts e rest, r.Reads ts e rest ↔
    ∃ x : Expression, x.tokens ++ rest = ts ∧ x.Derives rest ∧ x.height ≤ n ∧ x.tree = e

/-! ### Where a tree starts and stops -/

theorem callsTree_getLast? (calls : List (Call Expression)) (stop : Nat) :
    (callsTree calls).getLast?.elim stop (·.span.stop) = callsStop stop calls := by
  induction calls generalizing stop with
  | nil => rfl
  | cons c calls ih =>
    obtain ⟨opening, items, closing⟩ := c
    rw [callsTree, callsStop, ← ih, List.getLast?_cons]
    rcases (callsTree calls).getLast? with - | last <;> rfl

theorem Primary.span_tree (p : Primary) : p.tree.span = ⟨p.start, p.stop⟩ := by
  rcases p with ⟨t, a⟩ | ⟨opening, params, closing, arrow, body⟩
  · rfl
  · rw [Primary.tree, Primary.start, Primary.stop]
    rfl

theorem Expression.span_tree (x : Expression) : x.tree.span = ⟨x.start, x.stop⟩ := by
  rcases x with ⟨p, - | ⟨c, calls⟩⟩
  · rw [Expression.tree, Expression.start, Expression.stop, callsStop, p.span_tree]
  · rw [Expression.tree, Expression.start, Expression.stop]
    rfl

/-- The tree of an expression is put together from the trees of its parts. -/
theorem applied_tree (p : Primary) (calls : List (Call Expression)) :
    Rule.applied p.tree (callsTree calls) = (Expression.mk p calls).tree := by
  rcases calls with - | ⟨c, calls⟩
  · rfl
  · rw [Expression.tree, Rule.applied, ← callsTree_getLast?]
    rcases e : (callsTree (c :: calls)).getLast? with - | last
    · obtain ⟨opening, items, closing⟩ := c
      rw [callsTree, List.getLast?_cons] at e
      cases e
    · show Expr.calls _ _ (p.tree.span.upTo last.span) = _
      rw [p.span_tree]
      rfl

/-! ### Rows and optional tokens -/

/-- The parameters are the names up to a token that is no name. -/
theorem params_rest {ps rest : List Token} (hps : ∀ t ∈ ps, t.kind = .identifier)
    (hrest : Ahead (·.kind = .identifier) rest) :
    ∃ h, Rule.params (ps ++ rest) = ⟨ps.map fun t => ⟨t.lexeme, t.span⟩, rest, h⟩ := by
  induction ps with
  | nil =>
    rcases rest with - | ⟨t, us⟩
    · exact ⟨Nat.le_refl _, rfl⟩
    · refine ⟨Nat.le_refl _, ?_⟩
      show Rule.params (t :: us) = _
      rw [Rule.params, if_neg (hrest t us rfl)]
      rfl
  | cons t ps ih =>
    rw [List.forall_mem_cons] at hps
    obtain ⟨h, e⟩ := ih hps.2
    refine ⟨Nat.le_succ_of_le h, ?_⟩
    show Rule.params (t :: (ps ++ rest)) = _
    rw [Rule.params, if_pos hps.1, e]
    rfl

/-- Some tokens are names, and behind them is a token that is no name. -/
theorem exists_names (ts : List Token) : ∃ ps rest, ps ++ rest = ts ∧
    (∀ t ∈ ps, t.kind = .identifier) ∧ Ahead (·.kind = .identifier) rest := by
  induction ts with
  | nil => exact ⟨[], [], rfl, fun t ht => absurd ht List.not_mem_nil, ahead_nil⟩
  | cons t ts ih =>
    by_cases ht : t.kind = .identifier
    · obtain ⟨ps, rest, rfl, hps, hrest⟩ := ih
      exact ⟨t :: ps, rest, rfl, List.forall_mem_cons.2 ⟨ht, hps⟩, hrest⟩
    · exact ⟨[], t :: ts, rfl, fun t ht => absurd ht List.not_mem_nil, ahead_cons ht ts⟩

/-- An optional token is passed over. -/
theorem skip_rest {k : TokenKind} {o : Option Token} {rest : List Token}
    (ho : ∀ t ∈ o, t.kind = k) (hrest : Ahead (·.kind = k) rest) :
    Rule.skip k (o.toList ++ rest) = rest := by
  rcases o with - | t
  · rcases rest with - | ⟨t, us⟩
    · rfl
    · exact if_neg (hrest t us rfl)
  · exact if_pos (ho t rfl)

theorem exists_skipped (k : TokenKind) (ts : List Token) :
    ∃ o : Option Token, o.toList ++ Rule.skip k ts = ts ∧ ∀ t ∈ o, t.kind = k := by
  rcases ts with - | ⟨t, ts⟩
  · exact ⟨none, rfl, fun t ht => nomatch ht⟩
  · by_cases ht : t.kind = k
    · refine ⟨some t, ?_, fun u hu => Option.some.inj hu ▸ ht⟩
      rw [Rule.skip, if_pos ht]
      rfl
    · refine ⟨none, ?_, fun t ht => nomatch ht⟩
      rw [Rule.skip, if_neg ht]
      rfl

/-! ### Lists of expressions -/

section

variable {r : Rule Expr} {n : Nat} {rest : List Token}

theorem exists_items (hr : ReadsExpressions r n) {ts : List Token} {es : List Expr}
    (h : ReadsMany (Rule.expressions r ts) es rest) :
    ∃ xs, itemsTokens xs ++ rest = ts ∧ ItemsDerive rest xs ∧ itemsHeight xs ≤ n ∧
      itemsTree xs = es ∧ Ahead (·.startsExpression = true) rest := by
  obtain ⟨hle, h⟩ := h
  fun_induction Rule.expressions r ts generalizing es with
  | case1 =>
    cases h
    exact ⟨[], rfl, trivial, Nat.zero_le n, rfl, ahead_nil⟩
  | case2 => cases h
  | case3 => cases h
  -- one expression is read, and others behind it
  | case4 t us hstarts e mid hlt hread es' rest' hle' hmany ih =>
    cases h
    obtain ⟨x, htokens, hx, hheight, rfl⟩ := (hr _ _ _).1 ⟨hlt, hread⟩
    obtain ⟨xs, rfl, hxs, hheights, rfl, hahead⟩ := ih hle' hmany
    refine ⟨x :: xs, ?_, ⟨hx, hxs⟩, ?_, rfl, hahead⟩
    · rw [itemsTokens, List.append_assoc, htokens]
    · rw [itemsHeight]
      exact Nat.max_le.2 ⟨hheight, hheights⟩
  | case5 t us hstarts =>
    cases h
    exact ⟨[], rfl, trivial, Nat.zero_le n, rfl, ahead_cons hstarts us⟩

theorem items_read (hr : ReadsExpressions r n) (xs : List Expression) (hxs : ItemsDerive rest xs)
    (hheights : itemsHeight xs ≤ n) (hrest : Ahead (·.startsExpression = true) rest) :
    ReadsMany (Rule.expressions r (itemsTokens xs ++ rest)) (itemsTree xs) rest := by
  induction xs with
  | nil =>
    refine ⟨Nat.le_refl _, ?_⟩
    rcases rest with - | ⟨t, us⟩
    · show Rule.expressions r [] = _
      rw [Rule.expressions]
      rfl
    · show Rule.expressions r (t :: us) = _
      rw [Rule.expressions, if_neg (hrest t us rfl)]
      rfl
  | cons x xs ih =>
    rw [ItemsDerive] at hxs
    rw [itemsHeight, Nat.max_le] at hheights
    obtain ⟨t, us, htokens, hstarts⟩ := x.exists_tokens hxs.1
    have hx := (hr _ _ _).2 ⟨x, rfl, hxs.1, hheights.1, rfl⟩
    rw [htokens, List.cons_append] at hx
    obtain ⟨hlt, hread⟩ := hx
    obtain ⟨hle, hmany⟩ := ih hxs.2 hheights.2
    rw [itemsTokens, htokens, List.append_assoc, List.cons_append]
    refine ⟨Nat.le_trans hle (Nat.le_of_lt hlt), ?_⟩
    rw [Rule.expressions, if_pos hstarts, hread]
    simp only [hmany]
    rfl

/-! ### Calls -/

theorem exists_calls (hr : ReadsExpressions r n) {stop : Nat} {ts : List Token}
    {lists : List (Arguments Expr)} (h : ReadsMany (Rule.argumentLists r stop ts) lists rest) :
    ∃ calls, callsTokens calls ++ rest = ts ∧ CallsDerive rest stop calls ∧
      callsHeight calls ≤ n ∧ callsTree calls = lists := by
  obtain ⟨hle, h⟩ := h
  fun_induction Rule.argumentLists r stop ts generalizing lists with
  | case1 stop =>
    cases h
    refine ⟨[], rfl, ?_, Nat.zero_le n, rfl⟩
    rintro ⟨t, us, ⟨⟩, -⟩
  | case2 => cases h
  | case3 => cases h
  | case4 => cases h
  -- one argument list is read, and others that start where it stops
  | case5 stop t us hopen items u mid hlen hmany hclose lists' rest' hle' hlists ih =>
    cases h
    obtain ⟨xs, htokens, hxs, hheights, rfl, -⟩ := exists_items hr ⟨hlen, hmany⟩
    obtain ⟨calls, rfl, hcalls, hheight, rfl⟩ := ih hle' hlists
    refine ⟨⟨t, xs, u⟩ :: calls, ?_, ⟨hopen.1, hopen.2, hxs, hclose, hcalls⟩, ?_, rfl⟩
    · rw [callsTokens, ← htokens, List.append_assoc]
      rfl
    · rw [callsHeight]
      exact Nat.max_le.2 ⟨hheights, hheight⟩
  | case6 => cases h
  | case7 stop t us hopen =>
    cases h
    refine ⟨[], rfl, ?_, Nat.zero_le n, rfl⟩
    rintro ⟨u, vs, ⟨⟩, hkind, hoffset⟩
    exact hopen ⟨hkind, hoffset⟩

theorem calls_read (hr : ReadsExpressions r n) (calls : List (Call Expression)) {stop : Nat}
    (hcalls : CallsDerive rest stop calls) (hheight : callsHeight calls ≤ n) :
    ReadsMany (Rule.argumentLists r stop (callsTokens calls ++ rest)) (callsTree calls) rest := by
  induction calls generalizing stop with
  | nil =>
    refine ⟨Nat.le_refl _, ?_⟩
    rcases rest with - | ⟨t, us⟩
    · show Rule.argumentLists r stop [] = _
      rw [Rule.argumentLists]
      rfl
    · show Rule.argumentLists r stop (t :: us) = _
      rw [Rule.argumentLists, if_neg fun ht => hcalls ⟨t, us, rfl, ht.1, ht.2⟩]
      rfl
  | cons c calls ih =>
    obtain ⟨opening, items, closing⟩ := c
    rw [CallsDerive] at hcalls
    obtain ⟨hopen, hoffset, hitems, hclose, hbehind⟩ := hcalls
    rw [callsHeight, Nat.max_le] at hheight
    obtain ⟨hle, hmany⟩ := items_read hr items hitems hheight.1 (ahead_closing hclose _)
    obtain ⟨hle', hlists⟩ := ih hbehind hheight.2
    rw [callsTokens, List.append_assoc, List.cons_append]
    refine ⟨?_, ?_⟩
    · rw [List.length_cons, List.length_append, List.cons_append, List.length_cons]
      omega
    · rw [Rule.argumentLists, if_pos ⟨hopen, hoffset⟩, hmany]
      simp only [List.cons_append, if_pos hclose, hlists]
      rfl

/-! ### Primary expressions -/

theorem exists_function (hr : ReadsExpressions r n) {opening : Token} {ts : List Token} {e : Expr}
    (hopen : opening.kind = .openParen) (h : (Rule.function r opening.offset).Reads ts e rest) :
    ∃ p : Primary, p.tokens ++ rest = opening :: ts ∧ p.Derives rest ∧ p.height ≤ n ∧
      p.tree = e := by
  obtain ⟨hlt, h⟩ := h
  -- the names up to the closing parenthesis are the parameters
  obtain ⟨ps, mid, rfl, hps, hmid⟩ := exists_names ts
  obtain ⟨hle, hparams⟩ := params_rest hps hmid
  rw [Rule.function, hparams] at h
  rcases mid with - | ⟨closing, us⟩
  · cases h
  · obtain ⟨arrow, hskip, harrow⟩ := exists_skipped .arrow us
    simp only at h
    split at h
    · rename_i hclose
      split at h
      · cases h
      · rename_i body rest' hlt' hread
        cases h
        obtain ⟨x, htokens, hx, hheight, rfl⟩ := (hr _ _ _).1 ⟨hlt', hread⟩
        refine ⟨.function opening ps closing arrow x, ?_, ⟨hopen, hps, hclose, harrow, hx⟩, hheight,
          ?_⟩
        · rw [Primary.tokens, List.append_assoc, htokens, List.append_assoc, List.cons_append,
            List.cons_append, hskip]
        · rw [Primary.tree, x.span_tree]
    · cases h

theorem function_reads (hr : ReadsExpressions r n) {opening closing : Token} {ps : List Token}
    {arrow : Option Token} {x : Expression}
    (h : (Primary.function opening ps closing arrow x).Derives rest) (hheight : x.height ≤ n) :
    (Rule.function r opening.offset).Reads
      (ps ++ closing :: (arrow.toList ++ (x.tokens ++ rest)))
      (Primary.function opening ps closing arrow x).tree rest := by
  rw [Primary.Derives] at h
  obtain ⟨-, hps, hclose, harrow, hx⟩ := h
  have hname : ¬ closing.kind = .identifier := fun h => TokenKind.noConfusion (hclose.symm.trans h)
  obtain ⟨hle, hparams⟩ := params_rest hps (ahead_cons hname (arrow.toList ++ (x.tokens ++ rest)))
  have hskip := skip_rest harrow (Expression.ahead (by simp [TokenKind.separators]) hx rest)
  -- the body is read from what is left when the arrow has been passed over
  obtain ⟨hlt, hread⟩ := (hr _ _ _).2 ⟨x, hskip.symm, hx, hheight, rfl⟩
  refine ⟨?_, ?_⟩
  · simp only [List.length_append, List.length_cons]
    omega
  · rw [Rule.function, hparams]
    simp only [if_pos hclose, hread, Primary.tree, x.span_tree]

theorem primary_reads_iff (hr : ReadsExpressions r n) {ts : List Token} {e : Expr} :
    (Rule.primary r).Reads ts e rest ↔
      ∃ p : Primary, p.tokens ++ rest = ts ∧ p.Derives rest ∧ p.height ≤ n ∧ p.tree = e := by
  constructor
  · rintro ⟨hlt, h⟩
    rcases ts with - | ⟨t, us⟩
    · cases h
    · rw [Rule.primary] at h
      rcases hatom : t.atom? with - | a
      · rw [hatom] at h
        simp only at h
        split at h
        · rename_i hopen
          split at h
          · cases h
          · rename_i e' rest' hlt' hfunction
            cases h
            exact exists_function hr hopen ⟨hlt', hfunction⟩
        · cases h
      · rw [hatom] at h
        cases h
        exact ⟨.atom t a, rfl, hatom, Nat.zero_le n, rfl⟩
  · rintro ⟨⟨t, a⟩ | ⟨opening, ps, closing, arrow, x⟩, rfl, h, hheight, rfl⟩
    · rw [Primary.Derives] at h
      refine ⟨Nat.lt_succ_self _, ?_⟩
      show Rule.primary r (t :: rest) = _
      rw [Rule.primary, h]
      rfl
    · have hopen : opening.kind = .openParen := h.1
      obtain ⟨hlt, hfunction⟩ := function_reads hr h hheight
      simp only [Primary.tokens, List.cons_append, List.append_assoc]
      refine ⟨Nat.lt_succ_of_lt hlt, ?_⟩
      rw [Rule.primary, Token.atom?_eq_none_of_openParen hopen]
      simp only [if_pos hopen, hfunction]

/-! ### Expressions -/

theorem callChain_reads_iff (hr : ReadsExpressions r n) {ts : List Token} {e : Expr} :
    (Rule.callChain r).Reads ts e rest ↔
      ∃ x : Expression, x.tokens ++ rest = ts ∧ x.Derives rest ∧ x.height ≤ n + 1 ∧ x.tree = e := by
  constructor
  · rintro ⟨hlt, h⟩
    rw [Rule.callChain] at h
    split at h
    · cases h
    · rename_i callee mid hlt' hprimary
      split at h
      · cases h
      · rename_i lists rest' hle hlists
        cases h
        obtain ⟨p, htokens, hp, hheight, rfl⟩ := (primary_reads_iff hr).1 ⟨hlt', hprimary⟩
        -- the tree of the callee stops where its derivation does
        rw [p.span_tree] at hlists
        obtain ⟨calls, rfl, hcalls, hheights, rfl⟩ := exists_calls hr ⟨hle, hlists⟩
        refine ⟨.mk p calls, ?_, ⟨hp, hcalls⟩, ?_, (applied_tree p calls).symm⟩
        · rw [Expression.tokens, List.append_assoc, htokens]
        · rw [Expression.height]
          exact Nat.succ_le_succ (Nat.max_le.2 ⟨hheight, hheights⟩)
  · rintro ⟨⟨p, calls⟩, rfl, h, hheight, rfl⟩
    rw [Expression.Derives] at h
    rw [Expression.height, Nat.succ_le_succ_iff, Nat.max_le] at hheight
    obtain ⟨hlt, hprimary⟩ := (primary_reads_iff hr).2 ⟨p, rfl, h.1, hheight.1, rfl⟩
    obtain ⟨hle, hlists⟩ := calls_read hr calls h.2 hheight.2
    rw [Expression.tokens, List.append_assoc]
    refine ⟨Nat.lt_of_le_of_lt hle hlt, ?_⟩
    rw [Rule.callChain, hprimary]
    simp only [p.span_tree, hlists, applied_tree]

end

/-- **With some levels left the rule reads the expressions that are at most that high.** -/
theorem readsExpressions_expression (n : Nat) : ReadsExpressions (Rule.expression n) n := by
  induction n with
  | zero =>
    intro ts e rest
    constructor
    · rintro ⟨hlt, h⟩
      cases h
    · rintro ⟨⟨p, calls⟩, -, -, hheight, -⟩
      rw [Expression.height] at hheight
      cases hheight
  | succ n ih => exact fun ts e rest => callChain_reads_iff ih

end Grammar

end DrawLang
