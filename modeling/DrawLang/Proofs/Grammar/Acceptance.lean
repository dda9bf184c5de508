/-
DrawLang/Proofs/Grammar/Acceptance.lean

The programs that are read are those of the grammar.  A row of tokens up to the
end of input is read exactly if it has a derivation that nests at most
`nestingLimit` levels deep; the derivation is the only one, and the tree is the
one that it describes.

The rule for scopes reads the derivations that are at most as high as there are
levels left, as the one for expressions does.  No derivation contains the end of
input, so a rest that starts with it is the end of the row.

Main statement: `reads_exactly_the_grammar`.
-/
import Mathlib
import DrawLang.Proofs.Grammar.Reading

namespace DrawLang

namespace Grammar

/-- The rule reads the scopes that are at most that high. -/
def ReadsPrograms (r : Rule Scope) (n : Nat) : Prop :=
  ∀ ts s rest, r.Reads ts s rest ↔
    ∃ d : Program, d.tokens ++ rest = ts ∧ d.Derives rest ∧ d.height ≤ n ∧ d.tree = s

theorem Program.stop_tree (d : Program) : d.tree.span.stop = d.stop := by
  rcases d with ⟨clauses, result⟩
  rw [Program.tree, Program.stop]

/-- The tree of a scope is put together from the trees of its parts. -/
theorem scopeOf_tree (clauses : List (Clause Program)) (result : Expression) :
    Rule.scopeOf (clausesTree clauses) result.tree = (Program.mk clauses result).tree := by
  rw [Program.tree, Rule.scopeOf, result.span_tree]
  rcases clauses with - | ⟨⟨keyword, name, colon, body⟩, clauses⟩
  · rw [clausesTree, scopeStart]
    rfl
  · rw [clausesTree, scopeStart]
    rfl

/-! ### Definitions -/

section

variable {r : Rule Scope} {n : Nat} {rest : List Token}

theorem exists_clauses (hr : ReadsPrograms r n) {ts : List Token} {ds : List (Definition Scope)}
    (h : ReadsMany (Rule.definitions r ts) ds rest) :
    ∃ cs, clausesTokens cs ++ rest = ts ∧ ClausesDerive rest cs ∧ clausesHeight cs ≤ n ∧
      clausesTree cs = ds ∧ Ahead (·.kind = .define) rest := by
  obtain ⟨hle, h⟩ := h
  fun_induction Rule.definitions r ts generalizing ds with
  | case1 =>
    cases h
    exact ⟨[], rfl, trivial, Nat.zero_le n, rfl, ahead_nil⟩
  | case2 => cases h
  | case3 => cases h
  | case4 => cases h
  -- one definition is read, and others behind it
  | case5 t hdefine u vs hname body mid hlt hread _ ds' rest' hle' hmany ih =>
    cases h
    obtain ⟨colon, hskip, hcolon⟩ := exists_skipped .colon vs
    obtain ⟨d, htokens, hd, hheight, rfl⟩ := (hr _ _ _).1 ⟨hlt, hread⟩
    obtain ⟨cs, rfl, hcs, hheights, rfl, hahead⟩ := ih hle' hmany
    refine ⟨⟨t, u, colon, d⟩ :: cs, ?_, ⟨hdefine, hname, hcolon, hd, hcs⟩, ?_, ?_, hahead⟩
    · rw [clausesTokens, List.append_assoc, List.append_assoc, htokens, List.cons_append,
        List.cons_append, hskip]
    · rw [clausesHeight]
      exact Nat.max_le.2 ⟨hheight, hheights⟩
    · rw [clausesTree, d.stop_tree]
  | case6 => cases h
  | case7 t us hdefine =>
    cases h
    exact ⟨[], rfl, trivial, Nat.zero_le n, rfl, ahead_cons hdefine us⟩

theorem clauses_read (hr : ReadsPrograms r n) (cs : List (Clause Program))
    (hcs : ClausesDerive rest cs) (hheight : clausesHeight cs ≤ n)
    (hrest : Ahead (·.kind = .define) rest) :
    ReadsMany (Rule.definitions r (clausesTokens cs ++ rest)) (clausesTree cs) rest := by
  induction cs with
  | nil =>
    refine ⟨Nat.le_refl _, ?_⟩
    rcases rest with - | ⟨t, us⟩
    · show Rule.definitions r [] = _
      rw [Rule.definitions]
      rfl
    · show Rule.definitions r (t :: us) = _
      rw [Rule.definitions.eq_def]
      exact if_neg (hrest t us rfl)
  | cons c cs ih =>
    obtain ⟨keyword, name, colon, d⟩ := c
    rw [ClausesDerive] at hcs
    obtain ⟨hdefine, hname, hcolon, hd, hbehind⟩ := hcs
    rw [clausesHeight, Nat.max_le] at hheight
    have hskip := skip_rest hcolon (d.ahead_colon hd (clausesTokens cs ++ rest))
    obtain ⟨hlt, hread⟩ := (hr _ _ _).2 ⟨d, hskip.symm, hd, hheight.1, rfl⟩
    obtain ⟨hle, hmany⟩ := ih hbehind hheight.2
    have htokens : clausesTokens (⟨keyword, name, colon, d⟩ :: cs) ++ rest =
        keyword :: name :: (colon.toList ++ (d.tokens ++ (clausesTokens cs ++ rest))) := by
      simp only [clausesTokens, List.cons_append, List.append_assoc]
    rw [htokens]
    refine ⟨?_, ?_⟩
    · simp only [List.length_append, List.length_cons]
      omega
    · rw [Rule.definitions, if_pos hdefine]
      simp only [if_pos hname, hread, hmany, d.stop_tree]
      rfl

/-! ### Scopes -/

theorem body_reads_iff (hr : ReadsPrograms r n) {rₑ : Rule Expr} (hrₑ : ReadsExpressions rₑ n)
    {ts : List Token} {s : Scope} :
    (Rule.body r rₑ).Reads ts s rest ↔
      ∃ d : Program, d.tokens ++ rest = ts ∧ d.Derives rest ∧ d.height ≤ n + 1 ∧ d.tree = s := by
  constructor
  · rintro ⟨hlt, h⟩
    rw [Rule.body] at h
    split at h
    · cases h
    · cases h
    · rename_i ds t us hle hdefinitions
      split at h
      · rename_i hstarts
        split at h
        · cases h
        · rename_i result rest' hlt' hread
          cases h
          obtain ⟨cs, rfl, hcs, hheights, rfl, -⟩ := exists_clauses hr ⟨hle, hdefinitions⟩
          obtain ⟨x, htokens, hx, hheight, rfl⟩ := (hrₑ _ _ _).1 ⟨hlt', hread⟩
          rw [← htokens] at hcs
          refine ⟨.mk cs x, ?_, ⟨hcs, hx⟩, ?_, (scopeOf_tree cs x).symm⟩
          · rw [Program.tokens, List.append_assoc, htokens]
          · rw [Program.height]
            exact Nat.succ_le_succ (Nat.max_le.2 ⟨hheights, hheight⟩)
      · cases h
  · rintro ⟨⟨cs, x⟩, rfl, h, hheight, rfl⟩
    rw [Program.Derives] at h
    rw [Program.height, Nat.succ_le_succ_iff, Nat.max_le] at hheight
    -- the result starts with a token that can start one, so no definition can
    obtain ⟨t, us, htokens, hstarts⟩ := x.exists_tokens h.2
    have hx := (hrₑ _ _ _).2 ⟨x, rfl, h.2, hheight.2, rfl⟩
    have hcs := clauses_read hr cs h.1 hheight.1
      (Expression.ahead (by simp [TokenKind.separators]) h.2 rest)
    rw [htokens, List.cons_append] at hx hcs
    obtain ⟨hlt, hread⟩ := hx
    obtain ⟨hle, hdefinitions⟩ := hcs
    rw [Program.tokens, List.append_assoc, htokens, List.cons_append]
    refine ⟨Nat.lt_of_lt_of_le hlt hle, ?_⟩
    rw [Rule.body, hdefinitions]
    simp only [if_pos hstarts, hread, scopeOf_tree]

end

/-- **With some levels left the rule reads the scopes that are at most that high.** -/
theorem readsPrograms_scope (n : Nat) : ReadsPrograms (Rule.scope n) n := by
  induction n with
  | zero =>
    intro ts s rest
    constructor
    · rintro ⟨hlt, h⟩
      cases h
    · rintro ⟨⟨cs, x⟩, -, -, hheight, -⟩
      rw [Program.height] at hheight
      cases hheight
  | succ n ih => exact fun ts s rest => body_reads_iff ih (readsExpressions_expression n)

/-! ### The end of input -/

mutual

/-- An expression does not contain the end of input. -/
theorem Expression.tokens_ne_end : (x : Expression) → {rest : List Token} → x.Derives rest →
    ∀ t ∈ x.tokens, t.kind ≠ .endOfInput
  | .mk p calls, rest, h => by
    rw [Expression.Derives] at h
    rw [Expression.tokens, List.forall_mem_append]
    exact ⟨p.tokens_ne_end h.1, calls_tokens_ne_end calls h.2⟩

theorem Primary.tokens_ne_end : (p : Primary) → {rest : List Token} → p.Derives rest →
    ∀ t ∈ p.tokens, t.kind ≠ .endOfInput
  | .atom t a, rest, h => by
    rw [Primary.Derives] at h
    rw [Primary.tokens, List.forall_mem_singleton]
    intro hend
    rw [Token.atom?, hend] at h
    cases h
  | .function opening ps closing arrow body, rest, h => by
    rw [Primary.Derives] at h
    obtain ⟨hopen, hps, hclose, harrow, hbody⟩ := h
    simp only [Primary.tokens, List.forall_mem_append, List.forall_mem_cons, Option.mem_toList]
    refine ⟨⟨⟨?_, ?_⟩, ?_, ?_⟩, body.tokens_ne_end hbody⟩
    · simp [hopen]
    · exact fun t ht => by simp [hps t ht]
    · simp [hclose]
    · exact fun t ht => by simp [harrow t ht]

theorem calls_tokens_ne_end : (calls : List (Call Expression)) → {stop : Nat} →
    {rest : List Token} → CallsDerive rest stop calls →
      ∀ t ∈ callsTokens calls, t.kind ≠ .endOfInput
  | [], stop, rest, h => fun t ht => absurd ht List.not_mem_nil
  | ⟨opening, items, closing⟩ :: calls, stop, rest, h => by
    rw [CallsDerive] at h
    obtain ⟨hopen, -, hitems, hclose, hcalls⟩ := h
    simp only [callsTokens, List.forall_mem_append, List.forall_mem_cons]
    refine ⟨⟨?_, items_tokens_ne_end items hitems⟩, ?_, calls_tokens_ne_end calls hcalls⟩
    · simp [hopen]
    · simp [hclose]

theorem items_tokens_ne_end : (xs : List Expression) → {rest : List Token} →
    ItemsDerive rest xs → ∀ t ∈ itemsTokens xs, t.kind ≠ .endOfInput
  | [], rest, h => fun t ht => absurd ht List.not_mem_nil
  | x :: xs, rest, h => by
    rw [ItemsDerive] at h
    rw [itemsTokens, List.forall_mem_append]
    exact ⟨x.tokens_ne_end h.1, items_tokens_ne_end xs h.2⟩

end

mutual

/-- A scope does not contain the end of input. -/
theorem Program.tokens_ne_end : (d : Program) → {rest : List Token} → d.Derives rest →
    ∀ t ∈ d.tokens, t.kind ≠ .endOfInput
  | .mk cs x, rest, h => by
    rw [Program.Derives] at h
    rw [Program.tokens, List.forall_mem_append]
    exact ⟨clauses_tokens_ne_end cs h.1, x.tokens_ne_end h.2⟩

theorem clauses_tokens_ne_end : (cs : List (Clause Program)) → {rest : List Token} →
    ClausesDerive rest cs → ∀ t ∈ clausesTokens cs, t.kind ≠ .endOfInput
  | [], rest, h => fun t ht => absurd ht List.not_mem_nil
  | ⟨keyword, name, colon, body⟩ :: cs, rest, h => by
    rw [ClausesDerive] at h
    obtain ⟨hdefine, hname, hcolon, hbody, hcs⟩ := h
    simp only [clausesTokens, List.forall_mem_append, List.forall_mem_cons, Option.mem_toList]
    refine ⟨⟨⟨?_, ?_, ?_⟩, body.tokens_ne_end hbody⟩, clauses_tokens_ne_end cs hcs⟩
    · simp [hdefine]
    · simp [hname]
    · exact fun t ht => by simp [hcolon t ht]

end

/-! ### Programs -/

/-- A program is read from a row of tokens if the rule for scopes leaves the end of input. -/
theorem ofTokens_eq_ok_iff {us : List Token} {last : Token}
    (hus : ∀ t ∈ us, t.kind ≠ .endOfInput) (hlast : last.kind = .endOfInput) {s : Scope} :
    Scope.ofTokens (us ++ [last]) = .ok s ↔
      ∃ d : Program, d.tokens = us ∧ d.Derives [last] ∧ d.height ≤ nestingLimit ∧ d.tree = s := by
  constructor
  · intro h
    rw [Scope.ofTokens] at h
    split at h
    · cases h
    -- nothing is left, so the end of input would be a token of the derivation
    · rename_i s' hlt hread
      obtain ⟨d, htokens, hd, -, -⟩ := (readsPrograms_scope _ _ _ _).1 ⟨hlt, hread⟩
      refine absurd hlast (d.tokens_ne_end hd last ?_)
      rw [List.append_nil] at htokens
      rw [htokens]
      exact List.mem_append_right us List.mem_cons_self
    -- the end of input is next, and it stands in one place only
    · rename_i s' t vs hlt hread
      split at h
      · rename_i hend
        cases h
        obtain ⟨d, htokens, hd, hheight, htree⟩ := (readsPrograms_scope _ _ _ _).1 ⟨hlt, hread⟩
        obtain ⟨hus, hvs⟩ := row_unique (d.tokens_ne_end hd) hus
          (ahead_cons (not_not_intro hend) vs) (ahead_cons (not_not_intro hlast) []) htokens
        exact ⟨d, hus, hvs ▸ hd, hheight, htree⟩
      · cases h
  · rintro ⟨d, rfl, hd, hheight, rfl⟩
    obtain ⟨hlt, hread⟩ := (readsPrograms_scope _ _ _ _).2 ⟨d, rfl, hd, hheight, rfl⟩
    rw [Scope.ofTokens, hread]
    exact if_pos hlast

end Grammar

/-- **The programs that are read are those of the grammar.**  A row of tokens up to
the end of input is read as a tree exactly if it has a derivation, at most
`nestingLimit` levels deep, that describes this tree.  A row has at most one
derivation, however deep. -/
theorem reads_exactly_the_grammar (us : List Token) (last : Token)
    (hus : ∀ t ∈ us, t.kind ≠ .endOfInput) (hlast : last.kind = .endOfInput) :
    (∀ s, Scope.ofTokens (us ++ [last]) = .ok s ↔
      ∃ d : Grammar.Program, d.tokens = us ∧ d.Derives [last] ∧ d.height ≤ nestingLimit ∧
        d.tree = s) ∧
    (∀ d d' : Grammar.Program, d.tokens = us → d.Derives [last] → d'.tokens = us →
      d'.Derives [last] → d = d') := by
  refine ⟨fun s => Grammar.ofTokens_eq_ok_iff hus hlast, ?_⟩
  rintro d d' rfl h htokens h'
  exact (d.unique d' h h' (by rw [htokens])).1

/-- The derivation of `def id (a) -> a id(b)`: the first parenthesis opens a
function, the second one a call. -/
def Grammar.Program.sample : Grammar.Program :=
  .mk [⟨⟨.define, "def".toList, 0, 1⟩, ⟨.identifier, "id".toList, 4, 1⟩, none,
      .mk [] (.mk (.function ⟨.openParen, "(".toList, 7, 1⟩ [⟨.identifier, "a".toList, 8, 1⟩]
        ⟨.closeParen, ")".toList, 9, 1⟩ (some ⟨.arrow, "->".toList, 11, 1⟩)
        (.mk (.atom ⟨.identifier, "a".toList, 14, 1⟩ (.name "a".toList)) [])) [])⟩]
    (.mk (.atom ⟨.identifier, "id".toList, 16, 1⟩ (.name "id".toList))
      [⟨⟨.openParen, "(".toList, 18, 1⟩,
        [.mk (.atom ⟨.identifier, "b".toList, 19, 1⟩ (.name "b".toList)) []],
        ⟨.closeParen, ")".toList, 20, 1⟩⟩])

theorem reads_exactly_the_grammar_sample :
    (∀ t ∈ Grammar.Program.sample.tokens, t.kind ≠ .endOfInput) ∧
    Text.tokens? "def id (a) -> a id(b)".toList =
      .ok (Grammar.Program.sample.tokens ++ [⟨.endOfInput, [], 21, 1⟩]) ∧
    Scope.ofTokens (Grammar.Program.sample.tokens ++ [⟨.endOfInput, [], 21, 1⟩]) =
      .ok Grammar.Program.sample.tree := by
  have hends : ∀ t ∈ Grammar.Program.sample.tokens, t.kind ≠ .endOfInput := by decide +kernel
  refine ⟨hends, by decide +kernel, ?_⟩
  exact ((reads_exactly_the_grammar _ _ hends rfl).1 _).2
    ⟨Grammar.Program.sample, rfl, by decide +kernel, by decide +kernel, rfl⟩

end DrawLang
