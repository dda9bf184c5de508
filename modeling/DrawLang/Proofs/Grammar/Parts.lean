/-
DrawLang/Proofs/Grammar/Parts.lean

The text of each part of a tree reads as that part.  A part of a program, read
by itself as a scope, has a derivation whose tokens stand next to each other
among those of the program, and it is no higher than the one of the program
(`Node.Derived`); this goes from a part to all that stands in it.  As the span
of a part starts and stops with these tokens, its text has these tokens and no
others, moved back to the start of the text.  The derivation moved back is one
of them, and so the tree moved back is what the text reads as.

Main statement: `parts_read_back`.
-/
import DrawLang.Proofs.Grammar.Moved
import DrawLang.Proofs.Grammar.OfText
import DrawLang.Proofs.Token.Part

namespace DrawLang

namespace Grammar

/-! ### The text of a derivation -/

/-- **The text of a derivation has its tokens**, moved back to the start of the text. -/
theorem Program.tokens?_slice {source : Text} {d : Program} {before after : List Token}
    {last : Token} (h : source.tokens? = .ok (before ++ d.tokens ++ after ++ [last])) :
    ∃ f stop, (∀ t ∈ d.tokens, Moves f d.tree.span.start 0 t) ∧
      (d.tree.span.text source).tokens? = .ok ((d.map f).tokens ++ [stop]) ∧
      stop.kind = .endOfInput ∧
      (d.tree.span.text source).bytes + d.tree.span.start = d.tree.span.stop := by
  obtain ⟨first, more, hfirst, hstart⟩ := d.exists_first
  obtain ⟨init, final, hfinal, hstop⟩ := d.exists_final
  obtain ⟨hle, ⟨lines, stop, htokens, hend⟩, hbytes⟩ := Text.tokens?_slice h hfirst hfinal
  rw [hstart] at hle htokens hbytes
  rw [hstop] at htokens hbytes
  refine ⟨Token.back d.tree.span.start lines, stop, fun t ht => ?_, ?_, hend, hbytes⟩
  · exact ⟨⟨rfl, rfl⟩, Nat.sub_add_cancel (hle t ht)⟩
  · rw [tokens_map]
    exact htokens

/-- **The text of a derivation reads as its tree**, moved back to the start. -/
theorem Program.ofText_slice {source : Text} {d : Program} {before after : List Token}
    {last : Token} (h : source.tokens? = .ok (before ++ d.tokens ++ after ++ [last]))
    (hd : d.Derives []) (hheight : d.height ≤ nestingLimit) :
    ∃ s, Scope.ofText (d.tree.span.text source) = .ok s ∧
      s.relocate (· + d.tree.span.start) = d.tree := by
  obtain ⟨f, stop, hmoves, htokens, hend, -⟩ := d.tokens?_slice h
  refine ⟨(d.map f).tree, ?_, ?_⟩
  · refine Scope.ofText_eq_ok_iff.2 ⟨d.map f, stop, htokens, hend, ?_, ?_, rfl⟩
    · exact (d.map f).derives_less (opensLess_end hend []) (d.derives_moved hmoves hd)
    · rw [height_map]
      exact hheight
  · have htree := d.relocate_tree_map fun t ht => (hmoves t ht).carries
    exact htree.trans (d.tree.relocate_id Nat.add_zero)

/-! ### Derivations of parts -/

theorem exists_clause {cs : List (Clause Program)} {rest : List Token} (h : ClausesDerive rest cs)
    {d : Definition Scope} (hd : d ∈ clausesTree cs) :
    ∃ body : Program, body.tree = d.body ∧ body.tokens <:+: clausesTokens cs ∧ body.Derives [] ∧
      body.height ≤ clausesHeight cs := by
  induction cs with
  | nil => exact absurd hd List.not_mem_nil
  | cons c cs ih =>
    obtain ⟨keyword, name, colon, body⟩ := c
    rw [ClausesDerive] at h
    rw [clausesTree] at hd
    rw [clausesTokens, clausesHeight]
    rcases List.mem_cons.1 hd with rfl | hd
    · exact ⟨body, rfl, ⟨_, _, rfl⟩, Program.derives_nil h.2.2.2.1, Nat.le_max_left _ _⟩
    · obtain ⟨b, htree, htokens, hderives, hheight⟩ := ih h.2.2.2.2 hd
      exact ⟨b, htree, htokens.trans (List.suffix_append _ _).isInfix, hderives,
        Nat.le_trans hheight (Nat.le_max_right _ _)⟩

theorem exists_item {xs : List Expression} {rest : List Token} (h : ItemsDerive rest xs)
    {x : Expr} (hx : x ∈ itemsTree xs) :
    ∃ e : Expression, e.tree = x ∧ e.tokens <:+: itemsTokens xs ∧ e.Derives [] ∧
      e.height ≤ itemsHeight xs := by
  induction xs with
  | nil => exact absurd hx List.not_mem_nil
  | cons e xs ih =>
    rw [ItemsDerive] at h
    rw [itemsTree] at hx
    rw [itemsTokens, itemsHeight]
    rcases List.mem_cons.1 hx with rfl | hx
    · exact ⟨e, rfl, (List.prefix_append _ _).isInfix, e.derives_nil h.1, Nat.le_max_left _ _⟩
    · obtain ⟨e', htree, htokens, hderives, hheight⟩ := ih h.2 hx
      exact ⟨e', htree, htokens.trans (List.suffix_append _ _).isInfix, hderives,
        Nat.le_trans hheight (Nat.le_max_right _ _)⟩

theorem exists_argument {calls : List (Call Expression)} {rest : List Token} {stop : Nat}
    (h : CallsDerive rest stop calls) {list : Arguments Expr} (hlist : list ∈ callsTree calls)
    {x : Expr} (hx : x ∈ list.items) :
    ∃ e : Expression, e.tree = x ∧ e.tokens <:+: callsTokens calls ∧ e.Derives [] ∧
      e.height ≤ callsHeight calls := by
  induction calls generalizing stop with
  | nil => exact absurd hlist List.not_mem_nil
  | cons c calls ih =>
    obtain ⟨opening, items, closing⟩ := c
    rw [CallsDerive] at h
    rw [callsTree] at hlist
    rw [callsTokens, callsHeight]
    rcases List.mem_cons.1 hlist with rfl | hlist
    · obtain ⟨e, htree, htokens, hderives, hheight⟩ := exists_item h.2.2.1 hx
      refine ⟨e, htree, ?_, hderives, Nat.le_trans hheight (Nat.le_max_left _ _)⟩
      exact htokens.trans ⟨[opening], _, by rw [List.singleton_append]⟩
    · obtain ⟨e, htree, htokens, hderives, hheight⟩ := ih h.2.2.2.2 hlist
      refine ⟨e, htree, ?_, hderives, Nat.le_trans hheight (Nat.le_max_right _ _)⟩
      exact htokens.trans ((List.suffix_cons _ _).trans (List.suffix_append _ _)).isInfix

end Grammar

open Grammar

namespace Node

/-- The part by itself has a derivation of tokens that stand next to each other among `us`. -/
def Derived (us : List Token) (n : Node) : Prop :=
  ∃ d : Program, d.tree = n.alone ∧ d.tokens <:+: us ∧ d.Derives [] ∧ d.height ≤ nestingLimit

variable {us : List Token}

theorem derived_expr_iff {x : Expr} :
    (expr x).Derived us ↔ ∃ e : Expression, e.tree = x ∧ e.tokens <:+: us ∧ e.Derives [] ∧
      e.height < nestingLimit := by
  constructor
  · rintro ⟨⟨clauses, e⟩, htree, htokens, hderives, hheight⟩
    rw [Program.tree, alone] at htree
    injection htree with hclauses htree
    obtain rfl : clauses = [] := by
      rcases clauses with - | ⟨⟨keyword, name, colon, body⟩, clauses⟩
      · rfl
      · rw [clausesTree] at hclauses
        cases hclauses
    rw [Program.Derives] at hderives
    rw [Program.height, clausesHeight, Nat.zero_max] at hheight
    exact ⟨e, htree, htokens, hderives.2, hheight⟩
  · rintro ⟨e, rfl, htokens, hderives, hheight⟩
    refine ⟨.mk [] e, ?_, htokens, ⟨trivial, hderives⟩, ?_⟩
    · rw [Program.tree, alone, e.span_tree]
      rfl
    · rw [Program.height, clausesHeight, Nat.zero_max]
      exact hheight

/-- The expression is called if its tree is a chain of calls. -/
theorem exists_calls_of_tree {e : Expression} {callee : Expr} {lists : List (Arguments Expr)}
    {span : Span} (h : e.tree = .calls callee lists span) :
    ∃ p calls, e = .mk p calls ∧ p.tree = callee ∧ callsTree calls = lists := by
  obtain ⟨p, - | ⟨c, calls⟩⟩ := e
  · rw [Expression.tree] at h
    cases p with
    | atom | function =>
      rw [Primary.tree] at h
      cases h
  · rw [Expression.tree] at h
    injection h with hcallee hlists
    exact ⟨p, c :: calls, rfl, hcallee, hlists⟩

/-- The expression is derived as a function if its tree is one. -/
theorem exists_function_of_tree {e : Expression} {params : List Param} {body : Expr}
    {span : Span} (h : e.tree = .function params body span) :
    ∃ opening ts closing arrow x, e = .mk (.function opening ts closing arrow x) [] ∧
      ts.map (fun t => (⟨t.lexeme, t.span⟩ : Param)) = params ∧ x.tree = body := by
  obtain ⟨⟨t, a⟩ | ⟨opening, ts, closing, arrow, x⟩, - | ⟨c, calls⟩⟩ := e
  · rw [Expression.tree, Primary.tree] at h
    cases h
  · rw [Expression.tree] at h
    cases h
  · rw [Expression.tree, Primary.tree] at h
    injection h with hparams hbody
    exact ⟨opening, ts, closing, arrow, x, rfl, hparams, hbody⟩
  · rw [Expression.tree] at h
    cases h

/-- **What stands in a part that has a derivation has one too.** -/
theorem Child.derived {n n' : Node} (h : Child n n') (hn : n.Derived us) : n'.Derived us := by
  cases h with
  | @definition s d hd =>
    obtain ⟨⟨clauses, result⟩, htree, htokens, hderives, hheight⟩ := hn
    obtain rfl : (Program.mk clauses result).tree = s := htree
    rw [Program.tree] at hd
    rw [Program.Derives] at hderives
    rw [Program.tokens] at htokens
    rw [Program.height] at hheight
    obtain ⟨body, htree, hpart, hbody, hle⟩ := exists_clause hderives.1 hd
    refine ⟨body, htree, ?_, hbody, by omega⟩
    exact (hpart.trans (List.prefix_append _ _).isInfix).trans htokens
  | result s =>
    obtain ⟨⟨clauses, result⟩, htree, htokens, hderives, hheight⟩ := hn
    obtain rfl : (Program.mk clauses result).tree = s := htree
    rw [Program.Derives] at hderives
    rw [Program.tokens] at htokens
    rw [Program.height] at hheight
    refine derived_expr_iff.2 ⟨result, by rw [Program.tree], ?_, hderives.2, by omega⟩
    exact (List.suffix_append _ _).isInfix.trans htokens
  | function params body span =>
    obtain ⟨e, htree, htokens, hderives, hheight⟩ := derived_expr_iff.1 hn
    obtain ⟨opening, ps, closing, arrow, x, rfl, -, rfl⟩ := exists_function_of_tree htree
    rw [Expression.Derives, Primary.Derives] at hderives
    rw [Expression.tokens, Primary.tokens] at htokens
    rw [Expression.height, Primary.height] at hheight
    refine derived_expr_iff.2 ⟨x, rfl, ?_, x.derives_nil hderives.1.2.2.2.2, by omega⟩
    exact ((List.suffix_append _ _).isInfix.trans
      (List.prefix_append _ _).isInfix).trans htokens
  | callee callee lists span =>
    obtain ⟨e, htree, htokens, hderives, hheight⟩ := derived_expr_iff.1 hn
    obtain ⟨p, calls, rfl, rfl, -⟩ := exists_calls_of_tree htree
    rw [Expression.Derives] at hderives
    rw [Expression.tokens] at htokens
    rw [Expression.height] at hheight
    -- the callee by itself is a primary expression without calls
    refine derived_expr_iff.2 ⟨.mk p [], by rw [Expression.tree], ?_, ?_, ?_⟩
    · rw [Expression.tokens, callsTokens, List.append_nil]
      exact (List.prefix_append _ _).isInfix.trans htokens
    · rw [Expression.Derives, CallsDerive]
      exact ⟨p.derives_nil hderives.1, nofun⟩
    · rw [Expression.height, callsHeight]
      omega
  | argument callee span hlist hx =>
    obtain ⟨e, htree, htokens, hderives, hheight⟩ := derived_expr_iff.1 hn
    obtain ⟨p, calls, rfl, rfl, rfl⟩ := exists_calls_of_tree htree
    rw [Expression.Derives] at hderives
    rw [Expression.tokens] at htokens
    rw [Expression.height] at hheight
    obtain ⟨x, htree, hpart, hitem, hle⟩ := exists_argument hderives.2 hlist hx
    refine derived_expr_iff.2 ⟨x, htree, ?_, hitem, by omega⟩
    exact (hpart.trans (List.suffix_append _ _).isInfix).trans htokens

/-- **All parts of a program that has a derivation have one.** -/
theorem In.derived {program : Scope} {n : Node} (h : n.In program)
    (hprogram : (scope program).Derived us) : n.Derived us := by
  induction h with
  | refl => exact hprogram
  | tail _ hchild ih => exact hchild.derived ih

theorem span_alone (n : Node) : n.alone.span = n.span := by
  cases n <;> rfl

end Node

/-- **The text of each part of a program reads as that part**, by itself as a scope:
the tree that is read has the spans of the part moved back to the start of the text,
and all else is the same. -/
theorem parts_read_back (source : Text) (program : Scope) (h : Scope.ofText source = .ok program)
    (n : Node) (hn : n.In program) :
    ∃ s, Scope.ofText (n.span.text source) = .ok s ∧
      s = n.alone.relocate (· - n.span.start) ∧ s.relocate (· + n.span.start) = n.alone := by
  obtain ⟨d, last, htokens, -, hd, hheight, rfl⟩ := Scope.ofText_eq_ok_iff.1 h
  have hprogram : (Node.scope d.tree).Derived d.tokens :=
    ⟨d, rfl, List.infix_refl _, d.derives_nil hd, hheight⟩
  obtain ⟨d', htree, ⟨before, after, hpart⟩, hd', hheight'⟩ := hn.derived hprogram
  rw [← hpart] at htokens
  obtain ⟨s, hread, hrelocate⟩ := Program.ofText_slice htokens hd' hheight'
  rw [htree, n.span_alone] at hread hrelocate
  refine ⟨s, hread, ?_, hrelocate⟩
  rw [← hrelocate, s.relocate_relocate fun k => Nat.add_sub_cancel k n.span.start]

/-- The derivation of `a("ü" ; x)` and, on the next line, `b)`, where a comment holds a
closing parenthesis. -/
def Grammar.Expression.commented : Grammar.Expression :=
  .mk (.atom ⟨.identifier, "a".toList, 20, 2⟩ (.name "a".toList))
    [⟨⟨.openParen, "(".toList, 21, 2⟩,
      [.mk (.atom ⟨.string "ü".toList, "\"ü\"".toList, 22, 2⟩ (.string "ü".toList)) [],
        .mk (.atom ⟨.identifier, "b".toList, 33, 3⟩ (.name "b".toList)) []],
      ⟨.closeParen, ")".toList, 34, 3⟩⟩]

/-- The derivation of a program that defines a function with this body. -/
def Grammar.Program.commented : Grammar.Program :=
  .mk [⟨⟨.define, "def".toList, 5, 2⟩, ⟨.identifier, "f".toList, 9, 2⟩, none,
      .mk [] (.mk (.function ⟨.openParen, "(".toList, 11, 2⟩
        [⟨.identifier, "a".toList, 12, 2⟩, ⟨.identifier, "b".toList, 14, 2⟩]
        ⟨.closeParen, ")".toList, 15, 2⟩ (some ⟨.arrow, "->".toList, 17, 2⟩)
        Grammar.Expression.commented) [])⟩]
    (.mk (.atom ⟨.identifier, "f".toList, 36, 3⟩ (.name "f".toList)) [])

theorem parts_read_back_commented :
    Scope.ofText "; é\ndef f (a b) -> a(\"ü\" ; x)\n b) f".toList =
      .ok Grammar.Program.commented.tree ∧
    (Node.expr Grammar.Expression.commented.tree).In Grammar.Program.commented.tree ∧
    ∃ s, Scope.ofText "a(\"ü\" ; x)\n b)".toList = .ok s ∧ s.span = ⟨0, 15⟩ ∧
      s.relocate (· + 20) = (Node.expr Grammar.Expression.commented.tree).alone := by
  have hread : Scope.ofText "; é\ndef f (a b) -> a(\"ü\" ; x)\n b) f".toList =
      .ok Grammar.Program.commented.tree :=
    Scope.ofText_eq_ok_iff.2 ⟨Grammar.Program.commented, ⟨.endOfInput, [], 37, 3⟩,
      by decide +kernel, rfl, by decide +kernel, by decide +kernel, rfl⟩
  have hin : (Node.expr Grammar.Expression.commented.tree).In Grammar.Program.commented.tree :=
    .head (.definition List.mem_cons_self) (.head (.result _) (.single (.function _ _ _)))
  obtain ⟨s, hs, hback, hrelocate⟩ := parts_read_back _ _ hread _ hin
  refine ⟨hread, hin, s, hs, ?_, hrelocate⟩
  rw [hback]
  rfl

end DrawLang
