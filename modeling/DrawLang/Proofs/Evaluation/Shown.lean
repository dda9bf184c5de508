/-
DrawLang/Proofs/Evaluation/Shown.lean

Functions show their source.  Every function that there is at any moment of an
evaluation stems from a literal in a text that reads as a program
(`Function.IsLiteral`): its body is that of the literal, and it is shown by the
text of it.  Giving it a name, keeping it in a sequence or in another function
and calling it change none of this.  The text that such a function is shown by
reads as a literal again, with its parameters and its body, and comes to a
function that is shown by the same text (`Function.IsLiteral.showsSource`).

Main statement: `functions_show_their_source`.
-/
import DrawLang.Proofs.Grammar.Literal
import DrawLang.Proofs.Steps.Values
import DrawLang.Proofs.Value.Within
import DrawLang.Value.Shown

namespace DrawLang

open DrawLang.Action Moment

variable {ε : Type}

/-! ### What functions stem from -/

/-- The part stands in the program that the text reads as. -/
def Node.InText (source : Text) (n : Node) : Prop :=
  ∃ program, Scope.ofText source = .ok program ∧ n.In program

/-- The function stems from a literal in a text that reads as a program. -/
def Function.IsLiteral (f : Function Code) : Prop :=
  ∃ params span, (Node.expr (.function params f.body.expr span)).InText f.body.source ∧
    f.params = params.map Param.name ∧ f.text = Code.literalText params f.body

theorem Node.InText.child {source : Text} {n n' : Node} (h : n.InText source)
    (hchild : n.Child n') : n'.InText source := by
  obtain ⟨program, hread, hin⟩ := h
  exact ⟨program, hread, hin.tail hchild⟩

/-- Evaluation makes functions from literals only. -/
theorem upkeep_isLiteral :
    Upkeep (fun _ _ => True) (Value.EachFunction Function.IsLiteral) Node.InText where
  start _ := trivial
  definition _ _ _ := ⟨trivial, trivial⟩
  child := Node.InText.child
  plain := Value.inherited_eachFunction.plain
  literal hin _ _ hframes :=
    Value.eachFunction_function_iff.2 ⟨⟨_, _, hin, rfl, rfl⟩, hframes⟩
  rename h _ _ := by
    obtain ⟨hliteral, hkept⟩ := Value.eachFunction_function_iff.1 h
    exact Value.eachFunction_function_iff.2 ⟨hliteral, hkept⟩
  body h := by
    obtain ⟨⟨params, span, hin, -⟩, -⟩ := Value.eachFunction_function_iff.1 h
    exact hin.child (.function params _ span)
  kept h := (Value.eachFunction_function_iff.1 h).2
  plan hcallee hargs site _ _ := Value.inherited_eachFunction.plan hcallee hargs site

/-! ### What functions are shown by -/

/-- The text that the function is shown by reads as a literal with its parameters and, up to
spans, its body, and comes to a function that is shown by the same text. -/
structure Function.ShowsSource (f : Function Code) : Prop where
  reads : ∃ params body span span', Scope.ofText (Value.function f).display =
      .ok ⟨[], .function params body span, span'⟩ ∧
    params.map Param.name = f.params ∧ body.bare = f.body.expr.bare
  evaluates : ∀ (ε : Type) (host : ε), ∃ g m',
    Machine.evaluate (Value.function f).display (Machine.initial host) = .ok (.function g) m' ∧
      (Value.function g).display = (Value.function f).display

/-- A text that reads as a literal comes to the function of that literal. -/
theorem Machine.evaluate_literal {source : Text} {params : List Param} {body : Expr}
    {span span' : Span} (h : Scope.ofText source = .ok ⟨[], .function params body span, span'⟩)
    (host : ε) :
    ∃ g m', evaluate source (initial host) = .ok (.function g) m' ∧
      g.text = Code.literalText params ⟨body, source⟩ := by
  rw [evaluate, h]
  exact ⟨_, _, rfl, rfl⟩

/-- **The function of a literal shows its source.** -/
theorem Function.IsLiteral.showsSource {f : Function Code} (h : f.IsLiteral) : f.ShowsSource := by
  obtain ⟨params, span, ⟨program, hread, hin⟩, hparams, htext⟩ := h
  have hdisplay : (Value.function f).display = Code.literalText params f.body := htext
  obtain ⟨params', body, span', span'', hreads, hnames, hbare, hbody⟩ :=
    Scope.ofText_literalText hread hin
  rw [← hdisplay] at hreads hbody
  refine ⟨⟨params', body, span', span'', hreads, hnames.trans hparams.symm, hbare⟩,
    fun ε host => ?_⟩
  obtain ⟨g, m', hg, hshown⟩ := Machine.evaluate_literal hreads host
  refine ⟨g, m', hg, ?_⟩
  calc (Value.function g).display
      = Code.literalText params' ⟨body, (Value.function f).display⟩ := hshown
    _ = Code.headText (params.map Param.name) ++ f.body.expr.span.text f.body.source := by
        rw [Code.literalText_eq, hnames, hbody]
    _ = (Value.function f).display := hdisplay.symm

/-! ### Evaluation -/

/-- The steps of a program that is read from a text lead to where evaluation ends. -/
theorem Machine.steps_evaluate {source : Text} {program : Scope}
    (h : Scope.ofText source = .ok program) (m : Machine Code ε) :
    Steps ⟨.task (.scope source program), [], m⟩ (after [] (evaluate source m)) := by
  rw [evaluate, h]
  exact Evaluator.reaches_action (walks_evaluator _ m.level rfl) (balanced_evaluator _)
    (.scope source program) m rfl []

/-- **Functions show their source.**  Evaluating a text, where nothing is bound or only values
with functions that stem from literals, goes on step by step to its end.  Of all
values that there are on the way, being called or passed on, bound to names or come to,
each function within shows its source: the text that it is shown by reads as a literal with the
parameters and the body of the function, and where nothing is bound it comes to a
function shown by the same text.  What is bound goes on to be of that kind. -/
theorem functions_show_their_source (source : Text) (program : Scope)
    (hread : Scope.ofText source = .ok program) (m : Machine Code ε)
    (hm : m.environment.Holds (Value.EachFunction Function.IsLiteral)) :
    Steps ⟨.task (.scope source program), [], m⟩ (after [] (Machine.evaluate source m)) ∧
    ∀ c, Steps ⟨.task (.scope source program), [], m⟩ c →
      (∀ v ∈ c.values, ∀ f, (Value.function f).Within v → f.ShowsSource) ∧
      c.machine.environment.Holds (Value.EachFunction Function.IsLiteral) := by
  refine ⟨Machine.steps_evaluate hread m, fun c hc => ?_⟩
  have hupheld := upheld_of_steps upkeep_isLiteral hc
    ⟨⟨program, hread, .refl⟩, List.forall_mem_nil _, hm⟩
  exact ⟨fun v hv f hf => (hupheld.values v hv f hf).showsSource, hupheld.environment⟩

/-- The derivation of `(x y)`, with a tab between the parameters and a comment behind them, and
on the next line `x("ü"`, which is closed behind a comment that holds a parenthesis. -/
def Grammar.Program.respaced : Grammar.Program :=
  .mk [] (.mk (.function ⟨.openParen, "(".toList, 0, 1⟩
    [⟨.identifier, "x".toList, 1, 1⟩, ⟨.identifier, "y".toList, 3, 1⟩]
    ⟨.closeParen, ")".toList, 4, 1⟩ none
    (.mk (.atom ⟨.identifier, "x".toList, 12, 2⟩ (.name "x".toList))
      [⟨⟨.openParen, "(".toList, 13, 2⟩,
        [.mk (.atom ⟨.string "ü".toList, "\"ü\"".toList, 14, 2⟩ (.string "ü".toList)) []],
        ⟨.closeParen, ")".toList, 23, 3⟩⟩])) [])

/-- The function is shown with a space and an arrow, and with the comment in its body. -/
theorem functions_show_their_source_respaced :
    Scope.ofText "(x\ty) ; é\n x(\"ü\" ; )\n)".toList = .ok Grammar.Program.respaced.tree ∧
    (Machine.initial () : Machine Code Unit).environment.Holds
      (Value.EachFunction Function.IsLiteral) ∧
    ∃ f m', Machine.evaluate "(x\ty) ; é\n x(\"ü\" ; )\n)".toList (Machine.initial ()) =
        .ok (.function f) m' ∧
      (Value.function f).display = "(x y) -> x(\"ü\" ; )\n)".toList ∧ f.ShowsSource := by
  have hread : Scope.ofText "(x\ty) ; é\n x(\"ü\" ; )\n)".toList =
      .ok Grammar.Program.respaced.tree :=
    Scope.ofText_eq_ok_iff.2 ⟨Grammar.Program.respaced, ⟨.endOfInput, [], 24, 3⟩,
      by decide +kernel, rfl, by decide +kernel, by decide +kernel, rfl⟩
  have hm : (Machine.initial () : Machine Code Unit).environment.Holds
      (Value.EachFunction Function.IsLiteral) := Environment.holds_empty
  obtain ⟨f, m', hf, htext⟩ := Machine.evaluate_literal hread ()
  obtain ⟨hsteps, hshown⟩ := functions_show_their_source _ _ hread (Machine.initial ()) hm
  rw [hf] at hsteps
  have hf' : Value.function f ∈ (after [] (.ok (.function f) m')).values := List.mem_cons_self
  refine ⟨hread, hm, f, m', hf, htext.trans ?_, (hshown _ hsteps).1 _ hf' f .refl⟩
  decide +kernel

end DrawLang
