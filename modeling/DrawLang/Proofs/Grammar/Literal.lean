/-
DrawLang/Proofs/Grammar/Literal.lean

Function literals that are written anew.  A function is shown by its parameters with
a space between them, an arrow, and the part of the text that is its body.  In that
text the tokens in front of the body are the same whatever the literal had there, and
those of the body are moved to where it starts now.  So it reads as a function
literal with the same parameters and, up to spans, the same body, which stands
there in the same words (`Scope.ofText_literalText`).
-/
import DrawLang.Evaluation
import DrawLang.Proofs.Grammar.Parts
import DrawLang.Proofs.Token.Joined
import DrawLang.Proofs.Token.Written

namespace DrawLang

open Grammar

/-! ### In front of the body -/

namespace Code

/-- What a function is shown by in front of its body. -/
def headText (names : List Text) : Text := '(' :: [' '].intercalate names ++ ") -> ".toList

/-- The pieces in front of the body. -/
def headPieces (names : List Lexeme) : List Piece :=
  ⟨.token .openParen, ['(']⟩ :: Lexeme.pieces (names.map fun l => (l, .space)) ++
    [⟨.token .closeParen, [')']⟩, ⟨.blank, [' ']⟩, ⟨.token .arrow, ['-', '>']⟩, ⟨.blank, [' ']⟩]

theorem literalText_eq (params : List Param) (body : Expr) (source : Text) :
    literalText params ⟨body, source⟩ =
      headText (params.map Param.name) ++ body.span.text source :=
  rfl

theorem texts_headPieces (names : List Lexeme) :
    Piece.texts (headPieces names) = headText (names.map Lexeme.text) := by
  rw [headPieces, List.cons_append, Piece.texts_cons, Piece.texts_append, Lexeme.texts_pieces,
    Lexeme.written_spaces]
  rfl

/-- Any text can stand behind the arrow. -/
theorem tiled_headPieces (names : List Lexeme) {ps : List Piece} (h : Piece.Tiled ps) :
    Piece.Tiled (headPieces names ++ ps) := by
  have hclosing : Piece.Tiled (⟨.token .closeParen, [')']⟩ :: ⟨.blank, [' ']⟩ ::
      ⟨.token .arrow, ['-', '>']⟩ :: ⟨.blank, [' ']⟩ :: ps) :=
    ⟨.token .closeParen trivial, .white (by decide), .token .arrow trivial, .white (by decide), h⟩
  have hnames := Lexeme.tiled_append (names.map fun l => (l, .space)) hclosing (by
    rintro c ⟨⟩
    decide)
  rw [headPieces, List.cons_append, List.cons_append, List.append_assoc]
  exact ⟨.token .openParen trivial, hnames⟩

/-- The tokens in front of the body. -/
theorem exists_row_headPieces {names : List Lexeme} (h : ∀ l ∈ names, l.kind = .identifier) :
    ∃ (opening closing arrow : Token) (us : List Token),
      Piece.row 0 1 (headPieces names) = (opening :: us ++ [closing, arrow]).map .ok ∧
      opening.kind = .openParen ∧ closing.kind = .closeParen ∧ arrow.kind = .arrow ∧
      (∀ u ∈ us, u.kind = .identifier) ∧
      us.map Token.lexeme = names.map Lexeme.text := by
  obtain ⟨us, hrow, hkinds, htexts⟩ := Lexeme.exists_row (names.map fun l => (l, .space)) 1 1
  rw [List.map_map] at hkinds htexts
  have hopening : ∀ ps, Piece.row 0 1 (⟨.token .openParen, ['(']⟩ :: ps) =
      .ok ⟨.openParen, ['('], 0, 1⟩ :: Piece.row 1 1 ps := fun _ => rfl
  have hbehind : ∀ offset line, ∃ closing arrow : Token,
      Piece.row offset line [⟨.token .closeParen, [')']⟩, ⟨.blank, [' ']⟩,
        ⟨.token .arrow, ['-', '>']⟩, ⟨.blank, [' ']⟩] = [.ok closing, .ok arrow] ∧
      closing.kind = .closeParen ∧ arrow.kind = .arrow :=
    fun _ _ => ⟨_, _, rfl, rfl, rfl⟩
  obtain ⟨closing, arrow, hbehind, hclose, harrow⟩ := hbehind _ _
  refine ⟨⟨.openParen, ['('], 0, 1⟩, closing, arrow, us, ?_, rfl, hclose, harrow, ?_, htexts⟩
  · rw [headPieces, List.cons_append, hopening, Piece.row_append, hrow, hbehind, List.cons_append,
      List.map_cons, List.map_append]
    rfl
  · intro u hu
    have hmem : u.kind ∈ us.map Token.kind := List.mem_map_of_mem hu
    rw [hkinds] at hmem
    obtain ⟨l, hl, hkind⟩ := List.mem_map.1 hmem
    exact hkind.symm.trans (h l hl)

end Code

/-! ### The text of a literal -/

/-- **The text of an expression has its derivation**, moved back to the start of the text. -/
theorem Grammar.Expression.exists_alone {source : Text} {x : Expression}
    {before after : List Token} {last : Token}
    (h : source.tokens? = .ok (before ++ x.tokens ++ after ++ [last])) (hx : x.Derives []) :
    ∃ (y : Expression) (stop : Token),
      (x.tree.span.text source).tokens? = .ok (y.tokens ++ [stop]) ∧
      stop.kind = .endOfInput ∧ y.Derives [] ∧ y.height = x.height ∧ y.tree.bare = x.tree.bare ∧
      y.tree.span = ⟨0, (x.tree.span.text source).bytes⟩ := by
  have hspan : (Grammar.Program.mk [] x).tree.span = x.tree.span := by
    rw [Grammar.Program.tree, x.span_tree]
    rfl
  obtain ⟨f, stop, hmoves, htokens, hstop, hbytes⟩ :=
    Grammar.Program.tokens?_slice (d := .mk [] x) h
  rw [hspan] at hmoves htokens hbytes
  have hbare : (x.map f).tree.bare = x.tree.bare :=
    x.relocate_tree_map fun t ht => ⟨(hmoves t ht).lexeme, rfl, rfl⟩
  refine ⟨x.map f, stop, htokens, hstop, x.derives_moved hmoves hx, x.height_map f, hbare, ?_⟩
  have hcarries := x.relocate_span_map fun t ht => (hmoves t ht).carries
  have hstart : (x.map f).tree.span.start + x.tree.span.start = x.tree.span.start :=
    congrArg Span.start hcarries
  have hend : (x.map f).tree.span.stop + x.tree.span.start = x.tree.span.stop :=
    congrArg Span.stop hcarries
  have hzero : (x.map f).tree.span.start = 0 := by omega
  have hlength : (x.map f).tree.span.stop = (x.tree.span.text source).bytes := by omega
  rw [← hzero, ← hlength]

/-- A text reads as a literal if its tokens are those of one. -/
theorem Scope.ofText_function {source : Text} {opening closing last : Token} {ts : List Token}
    {arrow : Option Token} {x : Expression}
    (htokens : source.tokens? =
      .ok (opening :: ts ++ closing :: arrow.toList ++ x.tokens ++ [last]))
    (hopen : opening.kind = .openParen) (hparams : ∀ t ∈ ts, t.kind = .identifier)
    (hclose : closing.kind = .closeParen) (harrow : ∀ t ∈ arrow, t.kind = .arrow)
    (hlast : last.kind = .endOfInput) (hx : x.Derives []) (hheight : x.height + 2 ≤ nestingLimit) :
    ofText source = .ok ⟨[], .function (ts.map fun t => ⟨t.lexeme, t.span⟩) x.tree
      ⟨opening.offset, x.stop⟩, ⟨opening.offset, x.stop⟩⟩ := by
  refine ofText_eq_ok_iff.2 ⟨.mk [] (.mk (.function opening ts closing arrow x) []), last, ?_,
    hlast, ⟨trivial, ⟨hopen, hparams, hclose, harrow, ?_⟩, ?_⟩, ?_, rfl⟩
  · rw [htokens, Program.tokens, Expression.tokens, Primary.tokens, callsTokens, List.append_nil]
    rfl
  · exact x.derives_less (opensLess_end hlast []) hx
  · rintro ⟨t, us, ⟨⟩, htouch, -⟩
    exact absurd (hlast.symm.trans htouch) nofun
  · rw [Program.height, Expression.height, Primary.height, clausesHeight, callsHeight]
    omega

/-- **Behind parameters and an arrow a text is a body.** -/
theorem Scope.ofText_headText {names : List Text} (hnames : ∀ w ∈ names, Spells .identifier w)
    {x : Expression} {t : Text} {last : Token} (ht : t.tokens? = .ok (x.tokens ++ [last]))
    (hlast : last.kind = .endOfInput) (hx : x.Derives []) (hheight : x.height + 2 ≤ nestingLimit) :
    ∃ params body span span', ofText (Code.headText names ++ t) =
        .ok ⟨[], .function params body span, span'⟩ ∧
      params.map Param.name = names ∧ body.bare = x.tree.bare ∧
      body.span = x.tree.span.relocate (· + (Code.headText names).bytes) := by
  obtain ⟨ls, rfl, hls⟩ := Lexeme.exists_of_spells hnames
  obtain ⟨opening, closing, arrow, us, hrow, hopen, hclose, harrow, hus, hlexemes⟩ :=
    Code.exists_row_headPieces hls
  have htokens := Text.tokens?_behind (Code.tiled_headPieces ls (Text.tiled_pieces t)) hrow ht
  rw [Code.texts_headPieces, List.map_append] at htokens
  -- the tokens of the body are moved behind the head
  generalize hf : Token.forward (Code.headText (ls.map Lexeme.text)).bytes _ = f at htokens
  have hmoves : ∀ u, Moves f 0 (Code.headText (ls.map Lexeme.text)).bytes u :=
    fun u => hf ▸ ⟨⟨rfl, rfl⟩, rfl⟩
  have hall : opening :: us ++ [closing, arrow] ++ (x.tokens.map f ++ [last].map f) =
      opening :: us ++ closing :: (some arrow).toList ++ (x.map f).tokens ++ [f last] := by
    simp [x.tokens_map]
  rw [hall] at htokens
  refine ⟨_, (x.map f).tree, _, _, ofText_function htokens hopen hus hclose ?_
    ((hmoves last).kind.trans hlast) (x.derives_moved (fun u _ => hmoves u) hx) ?_, ?_, ?_, ?_⟩
  · rintro _ ⟨⟩
    exact harrow
  · rwa [x.height_map]
  · rw [List.map_map]
    exact hlexemes
  · exact x.relocate_tree_map fun u _ => ⟨(hmoves u).lexeme, rfl, rfl⟩
  · exact x.relocate_span_map fun u _ => (hmoves u).carries

/-- **The text that the function of a literal is shown by reads as a literal** with the same
parameters and, up to spans, the same body, which stands in that text as it
stands in the other one. -/
theorem Scope.ofText_literalText {source : Text} {program : Scope} {params : List Param}
    {body : Expr} {span : Span} (h : ofText source = .ok program)
    (hin : (Node.expr (.function params body span)).In program) :
    ∃ params' body' span' span'', ofText (Code.literalText params ⟨body, source⟩) =
        .ok ⟨[], .function params' body' span', span''⟩ ∧
      params'.map Param.name = params.map Param.name ∧ body'.bare = body.bare ∧
      body'.span.text (Code.literalText params ⟨body, source⟩) = body.span.text source := by
  obtain ⟨d, last, htokens, -, hd, hheight, rfl⟩ := ofText_eq_ok_iff.1 h
  have hprogram : (Node.scope d.tree).Derived d.tokens :=
    ⟨d, rfl, List.infix_refl _, d.derives_nil hd, hheight⟩
  obtain ⟨e, htree, ⟨before, after, hpart⟩, he, hheight⟩ :=
    Node.derived_expr_iff.1 (hin.derived hprogram)
  obtain ⟨opening, ts, closing, arrow, x, rfl, rfl, rfl⟩ := Node.exists_function_of_tree htree
  rw [Expression.Derives, Primary.Derives] at he
  rw [Expression.height, Primary.height, callsHeight, Nat.max_zero] at hheight
  obtain ⟨⟨-, hparams, -, -, hx⟩, -⟩ := he
  have hnames : ∀ w ∈ ts.map Token.lexeme, Spells .identifier w := by
    intro w hw
    obtain ⟨t, ht, rfl⟩ := List.mem_map.1 hw
    have hmem : t ∈ d.tokens ++ [last] := by
      rw [← hpart]
      simp [Expression.tokens, Primary.tokens, ht]
    have hspells := Text.longest_of_mem_tokens (Text.mem_tokens_of_tokens? htokens hmem)
      (by simp [hparams t ht])
    rw [hparams t ht] at hspells
    exact hspells.1
  have hbody : source.tokens? = .ok ((before ++ (opening :: ts ++ closing :: arrow.toList)) ++
      x.tokens ++ after ++ [last]) := by
    rw [htokens, ← hpart]
    simp [Expression.tokens, Primary.tokens, callsTokens]
  obtain ⟨y, stop, htext, hstop, hy, hsame, hbare, halone⟩ := Expression.exists_alone hbody hx
  obtain ⟨params', body', span', span'', hread, hparams', hbare', hspan⟩ :=
    ofText_headText hnames htext hstop hy (by omega)
  have hnames' : (ts.map fun t => (⟨t.lexeme, t.span⟩ : Param)).map Param.name =
      ts.map Token.lexeme := List.map_map
  rw [Code.literalText_eq, hnames']
  refine ⟨params', body', span', span'', hread, hparams', hbare'.trans hbare, ?_⟩
  have hslice := Text.slice_append (Code.headText (ts.map Token.lexeme))
    (x.tree.span.text source) []
  rw [List.append_nil] at hslice
  rw [hspan, halone, Span.relocate, Nat.zero_add, Nat.add_comm]
  exact hslice

end DrawLang
