/-
DrawLang/Proofs/Tree/Formed.lean

Well-formed trees.  The spans of a tree are told by the tokens of its text: each of them starts
where a token starts and stops where one stops (`Span.Reaches`), and the spans of what stands in a
part are inside of the span of the part, in order and without overlaps (`Span.Encloses`).  A name
and an expression of one token have the span of a token that says the same.

What is called is an expression of one token: a function literal is never called where it
stands.  The argument lists behind it follow each other without a gap (`Node.Formed`).
-/
import Mathlib.Data.List.Chain
import DrawLang.Proofs.Tree.Part
import DrawLang.Token.Scan
import DrawLang.Tree.OfTokens

namespace DrawLang

/-! ### Spans -/

namespace Span

/-- The span is not empty, starts where a token of the text starts and stops where one stops,
and neither of these is the end of input. -/
structure Reaches (source : Text) (s : Span) : Prop where
  nonempty : s.start < s.stop
  start : ∃ t ∈ source.tokens, t.kind ≠ .endOfInput ∧ t.offset = s.start
  stop : ∃ t ∈ source.tokens, t.kind ≠ .endOfInput ∧ t.stop = s.stop

/-- The other spans are inside of this one, in order and without overlaps. -/
structure Encloses (s : Span) (inner : List Span) : Prop where
  inside : ∀ u ∈ inner, s.start ≤ u.start ∧ u.stop ≤ s.stop
  apart : inner.Pairwise fun u v => u.stop ≤ v.start

/-- A token of the text that is this name has the span. -/
def Names (source : Text) (name : Text) (s : Span) : Prop :=
  ∃ t ∈ source.tokens, t.kind = .identifier ∧ t.lexeme = name ∧ t.span = s

end Span

/-! ### Parts -/

/-- The part has a good span, and so has all that stands directly in it. -/
inductive Node.Formed (source : Text) : Node → Prop
  /-- The definitions are in front of the result, each with its name in front of its body. -/
  | scope {s : Scope} (hspan : s.span.Reaches source)
    (hparts : s.span.Encloses (s.definitions.map Definition.span ++ [s.result.span]))
    (hdefinitions : ∀ d ∈ s.definitions, d.span.Reaches source ∧
      d.nameSpan.Names source d.name ∧ d.span.Encloses [d.nameSpan, d.body.span]) :
    Node.Formed source (.scope s)
  /-- The expression is a token. -/
  | atom {a : Atom} {span : Span} (hspan : span.Reaches source)
    (htoken : ∃ t ∈ source.tokens, t.atom? = some a ∧ t.span = span) :
    Node.Formed source (.expr (.atom a span))
  /-- The parameters are in front of the body. -/
  | function {params : List Param} {body : Expr} {span : Span} (hspan : span.Reaches source)
    (hparams : ∀ p ∈ params, p.span.Names source p.name)
    (hparts : span.Encloses (params.map Param.span ++ [body.span])) :
    Node.Formed source (.expr (.function params body span))
  /-- The callee is one token, and what follows it are argument lists without a gap. -/
  | calls {a : Atom} {calleeSpan span : Span} {lists : List (Arguments Expr)}
    (hspan : span.Reaches source) (hlists : lists ≠ [])
    (htouch : (calleeSpan :: lists.map Arguments.span).IsChain fun s u => s.stop = u.start)
    (hparts : span.Encloses (calleeSpan :: lists.map Arguments.span))
    (harguments : ∀ list ∈ lists, list.span.Reaches source ∧
      list.span.Encloses (list.items.map Expr.span)) :
    Node.Formed source (.expr (.calls (.atom a calleeSpan) lists span))

theorem Node.Formed.reaches {source : Text} {n : Node} (h : n.Formed source) :
    n.span.Reaches source := by
  cases h with
  | scope hspan | atom hspan | function hspan | calls hspan => exact hspan

end DrawLang
