/-
DrawLang/Proofs/Evaluation/Agreement.lean

Two evaluators side by side, which compare values by a likeness.  What is built
from parts mirrors if the parts do: rows of expressions if each expression does,
rows of argument lists if, besides, calls of like values with like arguments do.
Calls of anything but a function mirror in any case.
-/
import DrawLang.Evaluation
import DrawLang.Proofs.Invocation.Likeness

namespace DrawLang

open DrawLang.Action

variable {ε : Type} {L : Likeness Code Code}
  {E : Environment (Value Code) → Environment (Value Code) → Prop} {k : Nat} {X : Stop → Prop}
  {e e' : Evaluator ε}

namespace Evaluator

theorem mirrors_items {source : Text} {xs : List Expr}
    (h : ∀ x ∈ xs, Mirrors E k X L.value (e.expr source x) (e'.expr source x)) :
    Mirrors E k X (List.Forall₂ L.value) (e.items source xs) (e'.items source xs) := by
  induction xs with
  | nil => exact mirrors_pure .nil
  | cons x xs ih =>
    refine mirrors_bind (h x List.mem_cons_self) fun v v' hv => ?_
    refine mirrors_bind (ih fun y hy => h y (List.mem_cons_of_mem x hy)) fun vs vs' hvs => ?_
    exact mirrors_pure (.cons hv hvs)

theorem mirrors_lists {source : Text} {lists : List (Arguments Expr)} {v v' : Value Code}
    (hitems : ∀ list ∈ lists, ∀ x ∈ list.items,
      Mirrors E k X L.value (e.expr source x) (e'.expr source x))
    (hcall : ∀ site callee callee' args args', L.value callee callee' →
      List.Forall₂ L.value args args' →
        Mirrors E k X L.value (e.call site callee args) (e'.call site callee' args'))
    (span : Span) (hv : L.value v v') :
    Mirrors E k X L.value (e.lists source v span lists) (e'.lists source v' span lists) := by
  induction lists generalizing v v' span with
  | nil => exact mirrors_pure hv
  | cons list more ih =>
    refine mirrors_bind (mirrors_items (hitems list List.mem_cons_self)) fun args args' hargs => ?_
    refine mirrors_bind (hcall _ v v' args args' hv hargs) fun w w' hw => ?_
    exact ih (fun l hl => hitems l (List.mem_cons_of_mem list hl)) (span.upTo list.span) hw

end Evaluator

/-- Calls of like values with like arguments, which are no functions. -/
theorem mirrors_call_of_plan (L : Likeness Code Code)
    (run run' : Option (Code → Action Code ε (Value Code))) (site : Site)
    {callee callee' : Value Code} {args args' : List (Value Code)}
    (hcallee : ∀ f, callee ≠ .function f) (h : L.value callee callee')
    (hargs : List.Forall₂ L.value args args') :
    Mirrors E k X L.value (Action.call run site callee args : Action Code ε (Value Code))
      (Action.call run' site callee' args') := by
  have hcallee' : ∀ f', callee' ≠ .function f' := by
    rintro f' rfl
    rcases L.alike h with - | - | - | - | - | - | @⟨f, -, -⟩
    exact hcallee f rfl
  rw [call_eq_settle run site callee args hcallee, call_eq_settle run' site callee' args' hcallee']
  exact mirrors_settle site (L.tally_plan site h hargs)

end DrawLang
