/-
DrawLang/Proofs/Grammar/Formed.lean

The trees of texts are well formed.  A stretch is a row of tokens with the span from the first to
the last of them.  Where the tokens of a text are put together from several stretches, these are in
order and apart from each other, because the tokens are (`Stretch.encloses`).  Each part of a
derivation is a stretch, so all that is said of spans in a tree is said by its tokens.

What is called is one token, since an argument list that touches the body of a function literal
belongs to the body (`Expression.not_touches`).

Main statement: `trees_are_well_formed`.
-/
import DrawLang.Proofs.Grammar.Parts
import DrawLang.Proofs.Token.Tiling
import DrawLang.Proofs.Tree.Formed

namespace DrawLang

namespace Grammar

/-! ### Stretches -/

/-- The tokens are some of those of the text, in order, and the end of input is not among them. -/
structure Picked (source : Text) (ts : List Token) : Prop where
  sublist : ts.Sublist source.tokens
  inner : ∀ t ∈ ts, t.kind ≠ .endOfInput

/-- Tokens with the span from the first to the last one. -/
structure Stretch where
  tokens : List Token
  span : Span
  exists_first : ∃ first more, tokens = first :: more ∧ first.offset = span.start
  exists_final : ∃ init final, tokens = init ++ [final] ∧ final.stop = span.stop

namespace Picked

variable {source : Text} {ts us : List Token}

theorem of_sublist (h : Picked source us) (hts : ts.Sublist us) : Picked source ts :=
  ⟨hts.trans h.sublist, fun t ht => h.inner t (hts.subset ht)⟩

theorem pairwise (h : Picked source ts) : ts.Pairwise fun t u => t.stop ≤ u.offset :=
  (Text.pairwise_tokens source).sublist h.sublist

theorem mem_tokens (h : Picked source ts) {t : Token} (ht : t ∈ ts) : t ∈ source.tokens :=
  h.sublist.subset ht

theorem offset_lt_stop (h : Picked source ts) {t : Token} (ht : t ∈ ts) : t.offset < t.stop :=
  Text.offset_lt_stop (h.mem_tokens ht) (h.inner t ht)

end Picked

namespace Stretch

variable {source : Text}

/-- A single token. -/
def single (t : Token) : Stretch := ⟨[t], t.span, ⟨t, [], rfl, rfl⟩, [], t, rfl, rfl⟩

/-- All tokens of a stretch are inside of its span. -/
theorem bounds (s : Stretch) (h : Picked source s.tokens) {t : Token} (ht : t ∈ s.tokens) :
    s.span.start ≤ t.offset ∧ t.stop ≤ s.span.stop := by
  have hpairs := h.pairwise
  constructor
  · obtain ⟨first, more, htokens, hstart⟩ := s.exists_first
    have hfirst := h.offset_lt_stop (t := first) (htokens ▸ List.mem_cons_self)
    rw [htokens] at ht hpairs
    rcases List.mem_cons.1 ht with rfl | ht
    · exact Nat.le_of_eq hstart.symm
    · have hbehind := (List.pairwise_cons.1 hpairs).1 t ht
      omega
  · obtain ⟨init, final, htokens, hstop⟩ := s.exists_final
    have hfinal := h.offset_lt_stop (t := final) (htokens ▸ List.mem_concat_self)
    rw [htokens] at ht hpairs
    rcases List.mem_append.1 ht with ht | ht
    · have hbefore := (List.pairwise_append.1 hpairs).2.2 t ht final List.mem_cons_self
      omega
    · obtain rfl := List.mem_singleton.1 ht
      exact Nat.le_of_eq hstop

theorem reaches (s : Stretch) (h : Picked source s.tokens) : s.span.Reaches source := by
  obtain ⟨first, more, hfirst, hstart⟩ := s.exists_first
  obtain ⟨init, final, hfinal, hstop⟩ := s.exists_final
  have hmem : first ∈ s.tokens := hfirst ▸ List.mem_cons_self
  have hmem' : final ∈ s.tokens := hfinal ▸ List.mem_concat_self
  refine ⟨?_, ⟨first, h.mem_tokens hmem, h.inner first hmem, hstart⟩,
    final, h.mem_tokens hmem', h.inner final hmem', hstop⟩
  have hlt := h.offset_lt_stop hmem
  have hle := (s.bounds h hmem).2
  omega

/-- **Stretches next to each other are in order**, inside of the stretch that they are in. -/
theorem encloses (s : Stretch) (h : Picked source s.tokens) (parts : List Stretch)
    (hparts : (parts.flatMap tokens).Sublist s.tokens) :
    s.span.Encloses (parts.map span) := by
  constructor
  · rw [List.forall_mem_map]
    intro u hu
    obtain ⟨first, more, hfirst, hstart⟩ := u.exists_first
    obtain ⟨init, final, hfinal, hstop⟩ := u.exists_final
    have hsubset : ∀ t ∈ u.tokens, t ∈ s.tokens := fun t ht =>
      hparts.subset (List.mem_flatMap.2 ⟨u, hu, ht⟩)
    have hle := (s.bounds h (hsubset first (hfirst ▸ List.mem_cons_self))).1
    have hle' := (s.bounds h (hsubset final (hfinal ▸ List.mem_concat_self))).2
    omega
  · have hpairs := List.pairwise_flatMap.1 (h.of_sublist hparts).pairwise
    rw [List.pairwise_map]
    refine hpairs.2.imp fun {u v} hbehind => ?_
    obtain ⟨init, final, hfinal, hstop⟩ := u.exists_final
    obtain ⟨first, more, hfirst, hstart⟩ := v.exists_first
    have hle := hbehind final (hfinal ▸ List.mem_concat_self) first (hfirst ▸ List.mem_cons_self)
    omega

end Stretch

/-! ### Rows of parts -/

/-- The tokens of a call. -/
def Call.tokens (c : Call Expression) : List Token :=
  c.opening :: itemsTokens c.items ++ [c.closing]

/-- The argument list of a call. -/
def Call.tree (c : Call Expression) : Arguments Expr :=
  ⟨itemsTree c.items, ⟨c.opening.offset, c.closing.stop⟩⟩

/-- The tokens of a definition. -/
def Clause.tokens (c : Clause Program) : List Token :=
  c.keyword :: c.name :: c.colon.toList ++ c.body.tokens

/-- The definition of a clause. -/
def Clause.tree (c : Clause Program) : Definition Scope :=
  ⟨c.name.lexeme, c.name.span, c.body.tree, ⟨c.keyword.offset, c.body.stop⟩⟩

theorem callsTokens_eq (calls : List (Call Expression)) :
    callsTokens calls = calls.flatMap Call.tokens := by
  induction calls with
  | nil => rfl
  | cons c calls ih =>
    rw [callsTokens, ih, List.flatMap_cons, Call.tokens, List.append_assoc, List.singleton_append]

theorem callsTree_eq (calls : List (Call Expression)) : callsTree calls = calls.map Call.tree := by
  induction calls with
  | nil => rfl
  | cons c calls ih =>
    rw [callsTree, ih]
    rfl

theorem itemsTokens_eq (xs : List Expression) : itemsTokens xs = xs.flatMap Expression.tokens := by
  induction xs with
  | nil => rfl
  | cons x xs ih => rw [itemsTokens, ih, List.flatMap_cons]

theorem itemsTree_eq (xs : List Expression) : itemsTree xs = xs.map Expression.tree := by
  induction xs with
  | nil => rfl
  | cons x xs ih => rw [itemsTree, ih, List.map_cons]

theorem clausesTokens_eq (cs : List (Clause Program)) :
    clausesTokens cs = cs.flatMap Clause.tokens := by
  induction cs with
  | nil => rfl
  | cons c cs ih =>
    rw [clausesTokens, ih, List.flatMap_cons]
    rfl

theorem clausesTree_eq (cs : List (Clause Program)) : clausesTree cs = cs.map Clause.tree := by
  induction cs with
  | nil => rfl
  | cons c cs ih =>
    rw [clausesTree, ih]
    rfl

/-! ### Parts as stretches -/

/-- The stretch of an expression. -/
def Expression.stretch (x : Expression) : Stretch where
  tokens := x.tokens
  span := x.tree.span
  exists_first := by
    rw [x.span_tree]
    exact x.exists_first
  exists_final := by
    rw [x.span_tree]
    exact x.exists_final

/-- The stretch of a scope. -/
def Program.stretch (d : Program) : Stretch :=
  ⟨d.tokens, d.tree.span, d.exists_first, d.exists_final⟩

/-- The stretch of a call. -/
def Call.stretch (c : Call Expression) : Stretch where
  tokens := c.tokens
  span := c.tree.span
  exists_first := ⟨c.opening, _, rfl, rfl⟩
  exists_final := ⟨c.opening :: itemsTokens c.items, c.closing, rfl, rfl⟩

/-- The stretch of a definition. -/
def Clause.stretch (c : Clause Program) : Stretch where
  tokens := c.tokens
  span := c.tree.span
  exists_first := ⟨c.keyword, _, rfl, rfl⟩
  exists_final := by
    obtain ⟨init, final, htokens, hstop⟩ := c.body.exists_final
    refine ⟨c.keyword :: c.name :: c.colon.toList ++ init, final, ?_, ?_⟩
    · rw [Clause.tokens, htokens, ← List.append_assoc]
    · rw [hstop, c.body.stop_tree]
      rfl

/-! ### Calls -/

/-- Nothing touches an expression that has been read to its end. -/
theorem not_touches_calls {rest : List Token} {calls : List (Call Expression)} {stop : Nat}
    (h : CallsDerive rest stop calls) : ¬ Touches (callsStop stop calls) rest := by
  induction calls generalizing stop with
  | nil =>
    rw [CallsDerive] at h
    exact h
  | cons c calls ih =>
    obtain ⟨opening, items, closing⟩ := c
    rw [CallsDerive] at h
    exact ih h.2.2.2.2

theorem Expression.not_touches {rest : List Token} {x : Expression} (h : x.Derives rest) :
    ¬ Touches x.stop rest := by
  obtain ⟨p, calls⟩ := x
  rw [Expression.Derives] at h
  rw [Expression.stop]
  exact not_touches_calls h.2

/-- **What is called is one token.**  A function literal is not, because its body takes all
argument lists that touch it. -/
theorem exists_atom_of_called {rest : List Token} {p : Primary} {c : Call Expression}
    {calls : List (Call Expression)} (h : (Expression.mk p (c :: calls)).Derives rest) :
    ∃ t a, p = .atom t a ∧ t.atom? = some a := by
  obtain ⟨opening, items, closing⟩ := c
  rw [Expression.Derives, CallsDerive] at h
  obtain ⟨hp, hopening, hoffset, -⟩ := h
  rcases p with ⟨t, a⟩ | ⟨o, params, cl, arrow, body⟩
  · rw [Primary.Derives] at hp
    exact ⟨t, a, rfl, hp⟩
  · rw [Primary.Derives] at hp
    refine absurd ⟨opening, _, rfl, hopening, ?_⟩ (Expression.not_touches hp.2.2.2.2)
    rw [hoffset, Primary.stop]

/-- Each argument list starts where what is before it stops. -/
theorem isChain_calls {rest : List Token} {calls : List (Call Expression)} {s : Span}
    (h : CallsDerive rest s.stop calls) :
    (s :: (callsTree calls).map Arguments.span).IsChain fun s u => s.stop = u.start := by
  induction calls generalizing s with
  | nil => exact .singleton s
  | cons c calls ih =>
    obtain ⟨opening, items, closing⟩ := c
    rw [CallsDerive] at h
    rw [callsTree, List.map_cons]
    exact .cons_cons h.2.1.symm (ih (s := ⟨opening.offset, closing.stop⟩) h.2.2.2.2)

/-- The name of each definition is a name. -/
theorem kind_name_of_clauses {rest : List Token} {cs : List (Clause Program)}
    (h : ClausesDerive rest cs) : ∀ c ∈ cs, c.name.kind = .identifier := by
  induction cs with
  | nil => exact List.forall_mem_nil _
  | cons c cs ih =>
    obtain ⟨keyword, name, colon, body⟩ := c
    rw [ClausesDerive] at h
    exact List.forall_mem_cons.2 ⟨h.2.1, ih h.2.2.2.2⟩

/-! ### Well-formed parts -/

section

variable {source : Text} {rest : List Token}

theorem names_of_picked {ts : List Token} (h : Picked source ts) {t : Token} (ht : t ∈ ts)
    (hkind : t.kind = .identifier) : t.span.Names source t.lexeme :=
  ⟨t, h.mem_tokens ht, hkind, rfl, rfl⟩

theorem Clause.formed {c : Clause Program} (h : Picked source c.tokens)
    (hname : c.name.kind = .identifier) :
    c.tree.span.Reaches source ∧ c.tree.nameSpan.Names source c.tree.name ∧
      c.tree.span.Encloses [c.tree.nameSpan, c.tree.body.span] := by
  refine ⟨c.stretch.reaches h, names_of_picked h (.tail _ (.head _)) hname,
    c.stretch.encloses h [.single c.name, c.body.stretch] ?_⟩
  rw [List.flatMap_cons, List.flatMap_cons, List.flatMap_nil, List.append_nil]
  exact .cons _ (.cons_cons _ (List.sublist_append_right _ _))

theorem Program.formed {d : Program} (h : Picked source d.tokens) (hd : d.Derives rest) :
    (Node.scope d.tree).Formed source := by
  obtain ⟨clauses, result⟩ := d
  have hspan := (Program.mk clauses result).stretch.reaches h
  have hparts := (Program.mk clauses result).stretch.encloses h
    (clauses.map Clause.stretch ++ [result.stretch]) (by
      rw [List.flatMap_append, List.flatMap_map, List.flatMap_singleton]
      show (clauses.flatMap Clause.tokens ++ result.tokens).Sublist _
      rw [← clausesTokens_eq]
      exact .refl _)
  rw [List.map_append, List.map_map] at hparts
  rw [Program.Derives] at hd
  refine .scope hspan ?_ ?_
  · rw [Program.tree, clausesTree_eq, List.map_map]
    exact hparts
  · rw [Program.tree, clausesTree_eq, List.forall_mem_map]
    intro c hc
    have hsublist : c.tokens.Sublist (Program.mk clauses result).tokens := by
      rw [Program.tokens, clausesTokens_eq]
      exact (List.sublist_flatten_of_mem (List.mem_map_of_mem hc)).trans
        (List.sublist_append_left _ _)
    exact Clause.formed (h.of_sublist hsublist) (kind_name_of_clauses hd.1 c hc)

theorem Call.formed {c : Call Expression} (h : Picked source c.tokens) :
    c.tree.span.Reaches source ∧ c.tree.span.Encloses (c.tree.items.map Expr.span) := by
  have hparts := c.stretch.encloses h (c.items.map Expression.stretch) (by
    rw [List.flatMap_map]
    show (c.items.flatMap Expression.tokens).Sublist _
    rw [← itemsTokens_eq]
    exact .cons _ (List.sublist_append_left _ _))
  rw [List.map_map] at hparts
  refine ⟨c.stretch.reaches h, ?_⟩
  rw [Call.tree, itemsTree_eq, List.map_map]
  exact hparts

theorem formed_function {opening closing : Token} {params : List Token} {arrow : Option Token}
    {body x : Expression} (hx : x = .mk (.function opening params closing arrow body) [])
    (h : Picked source x.tokens) (hkinds : ∀ t ∈ params, t.kind = .identifier) :
    (Node.expr x.tree).Formed source := by
  have htokens : x.tokens = opening :: params ++ closing :: arrow.toList ++ body.tokens := by
    rw [hx, Expression.tokens, Primary.tokens, callsTokens, List.append_nil]
  have hparts := x.stretch.encloses h (params.map Stretch.single ++ [body.stretch]) (by
    show List.Sublist _ x.tokens
    rw [htokens, List.flatMap_append, List.flatMap_map, List.flatMap_singleton]
    refine .append (.trans ?_ (List.sublist_append_left _ _)) (.refl _)
    rw [show params.flatMap (fun t => (Stretch.single t).tokens) = params from
      List.flatMap_singleton' params]
    exact List.sublist_cons_self _ _)
  rw [List.map_append, List.map_map] at hparts
  have hspan := x.stretch.reaches h
  rw [htokens] at h
  subst hx
  refine .function hspan ?_ ?_
  · rw [List.forall_mem_map]
    intro t ht
    refine names_of_picked h ?_ (hkinds t ht)
    exact List.mem_append_left _ (List.mem_append_left _ (.tail _ ht))
  · rw [List.map_map]
    exact hparts

theorem formed_calls {t : Token} {a : Atom} {calls : List (Call Expression)} {x : Expression}
    (hx : x = .mk (.atom t a) calls) (hcalls : calls ≠ []) (h : Picked source x.tokens)
    (hderives : CallsDerive rest t.stop calls) : (Node.expr x.tree).Formed source := by
  have htokens : x.tokens = t :: calls.flatMap Call.tokens := by
    rw [hx, Expression.tokens, Primary.tokens, callsTokens_eq, List.singleton_append]
  have hparts := x.stretch.encloses h (.single t :: calls.map Call.stretch) (by
    show List.Sublist _ x.tokens
    rw [htokens, List.flatMap_cons, List.flatMap_map]
    exact .refl _)
  rw [List.map_cons, List.map_map] at hparts
  have hspan := x.stretch.reaches h
  have hchain := isChain_calls (s := t.span) hderives
  rw [htokens] at h
  obtain ⟨c, calls, rfl⟩ := List.exists_cons_of_ne_nil hcalls
  subst hx
  refine .calls hspan (List.cons_ne_nil _ _) hchain ?_ ?_
  · rw [callsTree_eq, List.map_map]
    exact hparts
  · rw [callsTree_eq, List.forall_mem_map]
    intro c' hc
    refine Call.formed (h.of_sublist ?_)
    exact (List.sublist_flatten_of_mem (List.mem_map_of_mem hc)).trans (List.sublist_cons_self _ _)

theorem Expression.formed {x : Expression} (h : Picked source x.tokens) (hx : x.Derives rest) :
    (Node.expr x.tree).Formed source := by
  obtain ⟨p, - | ⟨c, calls⟩⟩ := x
  · have hspan := (Expression.mk p []).stretch.reaches h
    rw [Expression.Derives] at hx
    rcases p with ⟨t, a⟩ | ⟨opening, params, closing, arrow, body⟩
    · rw [Primary.Derives] at hx
      exact .atom hspan ⟨t, h.mem_tokens List.mem_cons_self, hx.1, rfl⟩
    · rw [Primary.Derives] at hx
      exact formed_function rfl h hx.1.2.1
  · obtain ⟨t, a, rfl, -⟩ := exists_atom_of_called hx
    rw [Expression.Derives] at hx
    exact formed_calls rfl (List.cons_ne_nil _ _) h hx.2

end

end Grammar

open Grammar

/-! ### Programs -/

/-- The tokens of the derivation of a text are those of the text without the end of input. -/
theorem Grammar.Program.picked {source : Text} {d : Program} {last : Token}
    (h : source.tokens? = .ok (d.tokens ++ [last])) {rest : List Token} (hd : d.Derives rest) :
    Picked source d.tokens where
  sublist := by
    rw [Text.tokens_eq_of_tokens? h]
    exact List.sublist_append_left _ _
  inner := d.tokens_ne_end hd

theorem Node.In.formed {source : Text} {program : Scope} (h : Scope.ofText source = .ok program)
    {n : Node} (hn : n.In program) : n.Formed source := by
  obtain ⟨d, last, htokens, -, hd, hheight, rfl⟩ := Scope.ofText_eq_ok_iff.1 h
  have hpicked := d.picked htokens hd
  have hprogram : (Node.scope d.tree).Derived d.tokens :=
    ⟨d, rfl, List.infix_refl _, d.derives_nil hd, hheight⟩
  -- a part is derived from tokens that are next to each other in those of the program
  cases n with
  | scope s =>
    obtain ⟨d', htree, hinfix, hd', -⟩ := hn.derived hprogram
    obtain rfl : d'.tree = s := htree
    exact d'.formed (hpicked.of_sublist hinfix.sublist) hd'
  | expr x =>
    obtain ⟨e, rfl, hinfix, he, -⟩ := derived_expr_iff.1 (hn.derived hprogram)
    exact e.formed (hpicked.of_sublist hinfix.sublist) he

/-- A scope in a program is the program or the body of a definition. -/
theorem Node.In.eq_or_exists_definition {program s : Scope} (h : (Node.scope s).In program) :
    s = program ∨ ∃ s', (Node.scope s').In program ∧ ∃ d ∈ s'.definitions, d.body = s := by
  rcases Relation.ReflTransGen.cases_tail h with heq | ⟨m, hm, hchild⟩
  · injection heq with heq
    exact .inl heq
  · cases hchild with
    | definition hd => exact .inr ⟨_, hm, _, hd, rfl⟩

/-- **Parse trees are well formed.**  Each part of the tree of a text has a span that is not empty
and goes from the start of a token to the stop of one.  What stands directly in the part is inside
of it, in order and without overlaps.  Scopes are the program and the bodies of definitions, what
is called is one token, and argument lists follow it without a gap, at least one of them. -/
theorem trees_are_well_formed {source : Text} {program : Scope}
    (h : Scope.ofText source = .ok program) :
    (∀ n : Node, n.In program → n.Formed source) ∧
    ∀ s, (Node.scope s).In program →
      s = program ∨ ∃ s', (Node.scope s').In program ∧ ∃ d ∈ s'.definitions, d.body = s :=
  ⟨fun _ hn => hn.formed h, fun _ hs => hs.eq_or_exists_definition⟩

/-- The derivation of `g(x)(x)` behind `def f:(x)->`. -/
def Grammar.Expression.touching : Grammar.Expression :=
  .mk (.atom ⟨.identifier, "g".toList, 11, 1⟩ (.name "g".toList))
    [⟨⟨.openParen, "(".toList, 12, 1⟩,
      [.mk (.atom ⟨.identifier, "x".toList, 13, 1⟩ (.name "x".toList)) []],
      ⟨.closeParen, ")".toList, 14, 1⟩⟩,
    ⟨⟨.openParen, "(".toList, 15, 1⟩,
      [.mk (.atom ⟨.identifier, "x".toList, 16, 1⟩ (.name "x".toList)) []],
      ⟨.closeParen, ")".toList, 17, 1⟩⟩]

/-- The derivation of a function with this body. -/
def Grammar.Expression.literal : Grammar.Expression :=
  .mk (.function ⟨.openParen, "(".toList, 6, 1⟩ [⟨.identifier, "x".toList, 7, 1⟩]
    ⟨.closeParen, ")".toList, 8, 1⟩ (some ⟨.arrow, "->".toList, 9, 1⟩) .touching) []

/-- The derivation of a program that defines this function. -/
def Grammar.Program.touching : Grammar.Program :=
  .mk [⟨⟨.define, "def".toList, 0, 1⟩, ⟨.identifier, "f".toList, 4, 1⟩,
      some ⟨.colon, ":".toList, 5, 1⟩, .mk [] .literal⟩]
    (.mk (.atom ⟨.identifier, "f".toList, 19, 2⟩ (.name "f".toList)) [])

/-- The body of the function takes both argument lists, so that the function is not called. -/
theorem trees_are_well_formed_touching :
    Scope.ofText "def f:(x)->g(x)(x)\nf".toList = .ok Grammar.Program.touching.tree ∧
    (Node.expr Grammar.Expression.literal.tree).In Grammar.Program.touching.tree ∧
    (Node.expr Grammar.Expression.literal.tree).Formed "def f:(x)->g(x)(x)\nf".toList ∧
    Grammar.Expression.literal.tree.span.Encloses [⟨7, 8⟩, Grammar.Expression.touching.tree.span] ∧
    Grammar.Expression.touching.tree.span = ⟨11, 18⟩ := by
  have hread : Scope.ofText "def f:(x)->g(x)(x)\nf".toList = .ok Grammar.Program.touching.tree :=
    Scope.ofText_eq_ok_iff.2 ⟨Grammar.Program.touching, ⟨.endOfInput, [], 20, 2⟩,
      by decide +kernel, rfl, by decide +kernel, by decide +kernel, rfl⟩
  have hin : (Node.expr Grammar.Expression.literal.tree).In Grammar.Program.touching.tree :=
    .head (.definition List.mem_cons_self) (.single (.result _))
  have hformed := (trees_are_well_formed hread).1 _ hin
  refine ⟨hread, hin, hformed, ?_, rfl⟩
  cases hformed with
  | function _ _ hparts => exact hparts

end DrawLang
