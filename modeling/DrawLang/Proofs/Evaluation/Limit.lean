/-
DrawLang/Proofs/Evaluation/Limit.lean

Evaluation with fewer or more levels left.  An evaluator with more levels left is built from
the same step as one with fewer, on top of evaluators with more levels left again.  So by
induction on the levels all its parts carry over what the other one comes to
(`Evaluator.carriesOver_evaluator`): the limit adds faults for too many levels, and changes
nothing else.

Main statement: `limit_only_adds_depth_faults`.
-/
import DrawLang.Proofs.Action.Carrying
import DrawLang.Proofs.Evaluation.Services
import DrawLang.Proofs.Steps.Termination

namespace DrawLang

open DrawLang.Action

variable {ε : Type}

/-! ### Evaluators -/

/-- What the parts of one evaluator come to carries over to those of another one. -/
structure Evaluator.CarriesOver (e e' : Evaluator ε) : Prop where
  expr : ∀ source x, Action.CarriesOver (e.expr source x) (e'.expr source x)
  scope : ∀ source s, Action.CarriesOver (e.scope source s) (e'.scope source s)
  call : ∀ site callee args,
    Action.CarriesOver (e.call site callee args) (e'.call site callee args)

namespace Evaluator

variable {e e' : Evaluator ε}

theorem carriesOver_items (h : e.CarriesOver e') (source : Text) (xs : List Expr) :
    Action.CarriesOver (e.items source xs) (e'.items source xs) := by
  induction xs with
  | nil => exact carriesOver_pure []
  | cons x xs ih =>
    refine carriesOver_bind (h.expr source x) fun v => ?_
    exact carriesOver_bind ih fun vs => carriesOver_pure _

theorem carriesOver_lists (h : e.CarriesOver e') (source : Text) (span : Span)
    (lists : List (Arguments Expr)) (v : Value Code) :
    Action.CarriesOver (e.lists source v span lists) (e'.lists source v span lists) := by
  induction lists generalizing v span with
  | nil => exact carriesOver_pure v
  | cons list more ih =>
    refine carriesOver_bind (carriesOver_items h source list.items) fun args => ?_
    exact carriesOver_bind (h.call _ v args) fun w => ih (span.upTo list.span) w

theorem carriesOver_definitions (h : e.CarriesOver e') (source : Text)
    (ds : List (Definition Scope)) :
    Action.CarriesOver (e.definitions source ds) (e'.definitions source ds) := by
  induction ds with
  | nil => exact carriesOver_pure ()
  | cons d ds ih =>
    refine carriesOver_bind (h.scope source d.body) fun v => ?_
    exact carriesOver_bind (carriesOver_define _ d.name v) fun _ => ih

theorem carriesOver_value (source : Text) (span : Span) (a : Atom) :
    Action.CarriesOver (a.value source span : Action Code ε (Value Code))
      (a.value source span) := by
  cases a with
  | name id => exact carriesOver_known _ id
  | number | string | color | builtin => exact carriesOver_pure _

/-- Calls run code one level deeper only if they are calls of functions. -/
theorem carriesOver_call {deeper deeper' : Option (Evaluator ε)}
    (h : ∀ e, deeper = some e → ∃ e', deeper' = some e' ∧ e.CarriesOver e')
    (site : Site) (callee : Value Code) (args : List (Value Code)) :
    Action.CarriesOver ((step deeper).call site callee args)
      ((step deeper').call site callee args) := by
  by_cases hf : ∃ f, callee = .function f
  · obtain ⟨f, rfl⟩ := hf
    show Action.CarriesOver (callFunction _ site f args) (callFunction _ site f args)
    unfold callFunction
    split
    · rw [descend_map, descend_map]
      refine carriesOver_descend site fun e he => ?_
      obtain ⟨e', he', hcarries⟩ := h e he
      exact ⟨e', he', carriesOver_inside site _ (hcarries.expr _ _)⟩
    · exact carriesOver_throw _
  · have hplain : ∀ f, callee ≠ .function f := fun f hc => hf ⟨f, hc⟩
    show Action.CarriesOver (Action.call _ site callee args) (Action.call _ site callee args)
    rw [call_eq_settle _ site callee args hplain, call_eq_settle _ site callee args hplain]
    exact carriesOver_settle site _

theorem carriesOver_step {deeper deeper' : Option (Evaluator ε)}
    (h : ∀ e, deeper = some e → ∃ e', deeper' = some e' ∧ e.CarriesOver e') :
    (step deeper).CarriesOver (step deeper') where
  expr source x := by
    rcases x with ⟨a, span⟩ | ⟨params, body, span⟩ | ⟨callee, lists, span⟩
    · exact carriesOver_value source span a
    · exact carriesOver_close _ _ _
    · refine carriesOver_descend _ fun e he => ?_
      obtain ⟨e', he', hcarries⟩ := h e he
      refine ⟨e', he', carriesOver_bind (hcarries.expr source callee) fun v => ?_⟩
      exact carriesOver_lists hcarries source callee.span lists v
  scope source s := by
    refine carriesOver_descend _ fun e he => ?_
    obtain ⟨e', he', hcarries⟩ := h e he
    refine ⟨e', he', carriesOver_inside _ _ ?_⟩
    refine carriesOver_bind (carriesOver_definitions hcarries source s.definitions) fun _ => ?_
    exact hcarries.expr source s.result
  call := carriesOver_call h

/-- **What an evaluator comes to carries over to one with more levels left.** -/
theorem carriesOver_evaluator {levels levels' : Nat} (h : levels ≤ levels') :
    (evaluator levels : Evaluator ε).CarriesOver (evaluator levels') := by
  induction levels generalizing levels' with
  | zero =>
    -- no level is left, and nothing is asked of those that are left on the other side
    rcases levels' with - | levels' <;> exact carriesOver_step nofun
  | succ levels ih =>
    obtain ⟨more, rfl⟩ := Nat.exists_eq_add_of_le' h
    refine carriesOver_step fun e he => ⟨_, rfl, ?_⟩
    exact Option.some.inj he ▸ ih (Nat.le_add_left levels more)

end Evaluator

/-! ### Tasks and services -/

theorem Task.carriesOver_action {e e' : Evaluator ε} (h : e.CarriesOver e') (t : Task) :
    Action.CarriesOver (t.action e) (t.action e') := by
  induction t with
  | expr source x => exact h.expr source x
  | scope source program => exact h.scope source program
  | call site callee args => exact h.call site callee args
  | chain source callee lists =>
    refine carriesOver_bind (h.expr source callee) fun v => ?_
    exact Evaluator.carriesOver_lists h source callee.span lists v
  | lists source callee span lists =>
    exact Evaluator.carriesOver_lists h source span lists callee
  | arguments source callee span list args todo more =>
    refine carriesOver_bind (Evaluator.carriesOver_items h source todo) fun rest => ?_
    refine carriesOver_bind (h.call _ callee _) fun w => ?_
    exact Evaluator.carriesOver_lists h source _ more w
  | definitions source ds result =>
    refine carriesOver_bind (Evaluator.carriesOver_definitions h source ds) fun _ => ?_
    exact h.expr source result
  | inside site frame frames body ih => exact carriesOver_inside site _ ih

/-- It is a value, or a fault other than for too many levels. -/
inductive Settled {α : Type} : Except Stop α → Prop
  | value (v : α) : Settled (.ok v)
  | fault {f : Fault} (h : f.kind ≠ .depth) : Settled (.error (.fault f))

theorem Settled.not_cut {α : Type} {a : Action Code ε α} {m : Machine Code ε}
    (h : Settled (a.outcome m)) : ¬ Cut (a m) := by
  rw [outcome] at h
  rcases e : a m with ⟨v, n⟩ | ⟨s, n⟩ <;> rw [e] at h
  · exact id
  · cases h with
    | fault hkind => exact fun hcut => hkind (List.mem_singleton.1 (hcut _ rfl))

theorem Action.CarriesOver.of_settled {α : Type} {a a' : Action Code ε α}
    (h : CarriesOver a a') {m : Machine Code ε} (hm : Settled (a.outcome m)) (level : Nat) :
    a' (m.atLevel level) = atLevel level (a m) :=
  (h m level).resolve_left hm.not_cut

/-- A service is a task, or stops at once where a text cannot be read. -/
theorem Service.exists_task (s : Service) :
    (∃ t : Task, ∀ m : Machine Code ε, s.action m = t.action m.evaluator m) ∨
      ∃ stop, ∀ m : Machine Code ε, s.action m = .error stop m := by
  cases s with
  | run program source => exact .inl ⟨.scope source program, fun m => rfl⟩
  | evaluate source =>
    show (∃ t : Task, ∀ m : Machine Code ε, Machine.evaluate source m = _) ∨
      ∃ stop, ∀ m : Machine Code ε, Machine.evaluate source m = _
    unfold Machine.evaluate
    rcases Scope.ofText source with mismatch | program
    · exact .inr ⟨mismatch.stop source, fun m => rfl⟩
    · exact .inl ⟨.scope source program, fun m => rfl⟩
  | apply callee args =>
    exact .inl ⟨.call (.plain callee.display ⟨0, callee.display.bytes⟩) callee args, fun m => rfl⟩

/-- Behind a task that is settled as many levels are active as before. -/
theorem Task.atLevel_of_settled (t : Task) (levels : Nat) {m : Machine Code ε}
    (h : Settled ((t.action (evaluator levels)).outcome m)) :
    atLevel m.level (t.action (evaluator levels) m) = t.action (evaluator levels) m := by
  have hkept := t.extends_action (balanced_evaluator levels) m
  rw [Action.outcome] at h
  rcases e : t.action (evaluator levels) m with ⟨v, n⟩ | ⟨s, n⟩ <;> rw [e] at h
  · have hn : Machine.Extended m n := (ends_of_ok e).1 hkept
    rw [atLevel, Machine.atLevel, ← hn.level]
  · cases h with
    | fault =>
      have hn : Machine.Extended m n := (ends_of_error e).1 hkept
      rw [atLevel, Machine.atLevel, ← hn.level]

/-! ### Main statement -/

/-- **The limit only adds faults for too many levels.**  Let a task or a service come to a value
or to any other fault.  It comes to the same, and leaves the same machine behind, where fewer
levels are active at the start.  So it does, too, with an evaluator that has more levels left,
whether or not these are within `levelLimit`. -/
theorem limit_only_adds_depth_faults (m : Machine Code ε) :
    (∀ t : Task, ∀ level ≤ m.level, Settled (t.outcome m) →
      t.action (m.atLevel level).evaluator (m.atLevel level)
        = atLevel level (t.action m.evaluator m)) ∧
    (∀ s : Service, ∀ level ≤ m.level, Settled (s.action.outcome m) →
      s.action (m.atLevel level) = atLevel level (s.action m)) ∧
    ∀ (t : Task) (levels levels' : Nat), levels ≤ levels' →
      Settled ((t.action (evaluator levels)).outcome m) →
        t.action (evaluator levels') m = t.action (evaluator levels) m := by
  have htask : ∀ t : Task, ∀ level ≤ m.level, Settled (t.outcome m) →
      t.action (m.atLevel level).evaluator (m.atLevel level)
        = atLevel level (t.action m.evaluator m) := by
    intro t level hlevel ht
    have hleft : levelLimit - m.level ≤ levelLimit - level := Nat.sub_le_sub_left hlevel _
    exact (t.carriesOver_action (Evaluator.carriesOver_evaluator hleft)).of_settled ht level
  refine ⟨htask, fun s level hlevel hs => ?_, fun t levels levels' hlevels ht => ?_⟩
  · obtain ⟨t, ht⟩ | ⟨stop, hstop⟩ : _ ∨ ∃ stop, ∀ n : Machine Code ε, s.action n = .error stop n :=
      s.exists_task
    · have houtcome : s.action.outcome m = t.outcome m := by rw [Task.outcome, outcome, outcome, ht]
      rw [ht, ht]
      exact htask t level hlevel (houtcome ▸ hs)
    · rw [hstop, hstop]
      rfl
  · have hevaluator : (evaluator levels : Evaluator ε).CarriesOver (evaluator levels') :=
      Evaluator.carriesOver_evaluator hlevels
    have hcarries := t.carriesOver_action hevaluator
    -- with the level that there is at the start nothing changes behind it either
    exact (hcarries.of_settled ht m.level).trans (t.atLevel_of_settled levels ht)

/-- The program `def f (x) x("é")` and, on a second line, `f(concat)`, which takes four levels. -/
def fourLevels : Scope :=
  ⟨[⟨"f".toList, ⟨4, 5⟩,
      ⟨[], .function [⟨"x".toList, ⟨7, 8⟩⟩]
        (.calls (.atom (.name "x".toList) ⟨10, 11⟩)
          [⟨[.atom (.string "é".toList) ⟨12, 16⟩], ⟨11, 17⟩⟩] ⟨10, 17⟩)
        ⟨6, 17⟩, ⟨6, 17⟩⟩, ⟨0, 17⟩⟩],
   .calls (.atom (.name "f".toList) ⟨18, 19⟩)
    [⟨[.atom (.builtin .concat) ⟨20, 26⟩], ⟨19, 27⟩⟩] ⟨18, 27⟩, ⟨0, 27⟩⟩

/-- The text of `fourLevels`. -/
def fourLevelsSource : Text := "def f (x) x(\"é\")\nf(concat)".toList

/-- A machine with just four levels left. -/
def fourLeft : Machine Code Unit := (Machine.initial ()).atLevel 124

/-- Where four levels are left the program comes to a value, and so it does where all are left;
with one level less it is cut short. -/
theorem limit_only_adds_depth_faults_four :
    0 ≤ fourLeft.level ∧ Settled ((Task.scope fourLevelsSource fourLevels).outcome fourLeft) ∧
      (Task.scope fourLevelsSource fourLevels).outcome fourLeft
        = .ok (.sequence [.string "é".toList]) ∧
      (Task.scope fourLevelsSource fourLevels).action (fourLeft.atLevel 0).evaluator
          (fourLeft.atLevel 0)
        = atLevel 0 ((Task.scope fourLevelsSource fourLevels).action fourLeft.evaluator fourLeft) ∧
      (Task.scope fourLevelsSource fourLevels).outcome (fourLeft.atLevel 125)
        = .error (.fault ⟨.levels .depth levelLimit, "deeper nesting".toList, 1, 11⟩) := by
  have hvalue : (Task.scope fourLevelsSource fourLevels).outcome fourLeft
      = .ok (.sequence [.string "é".toList]) := by
    cbv
  have hcut : (Task.scope fourLevelsSource fourLevels).outcome (fourLeft.atLevel 125)
      = .error (.fault ⟨.levels .depth levelLimit, "deeper nesting".toList, 1, 11⟩) := by
    cbv
  have hsettled : Settled ((Task.scope fourLevelsSource fourLevels).outcome fourLeft) := by
    rw [hvalue]
    exact .value _
  obtain ⟨htask, -, -⟩ := limit_only_adds_depth_faults fourLeft
  exact ⟨Nat.zero_le _, hsettled, hvalue, htask _ 0 (Nat.zero_le _) hsettled, hcut⟩

end DrawLang
