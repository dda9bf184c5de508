/-
DrawLang/Proofs/Steps/Termination.lean

Evaluation ends.  From any task on any machine, whatever is bound there and
however many levels are active, the steps lead to a last moment, with the
outcome that the evaluator has for as many levels as are left.  On the way the
levels that are pending are those that the machine counts.  A step that tries to
go deeper than `levelLimit` ends in a stop that is also the outcome of the whole,
and there is no fault for too many levels without such a step.

If everything starts where its text has a position, the outcome is a value or a
fault and never a crash.

Main statement: `evaluation_ends`.
-/
import Mathlib
import DrawLang.Proofs.Steps.Levels
import DrawLang.Proofs.Steps.Placed
import DrawLang.Proofs.Text.Boundary

namespace DrawLang

open DrawLang.Action

variable {ε : Type}

namespace Moment

/-! ### The way to the last moment -/

theorem rightUnique_step : Relator.RightUnique (Step : Moment ε → Moment ε → Prop) :=
  fun _ _ _ h h' => Option.some.inj (h.symm.trans h')

/-- All moments are on the way to the last one. -/
theorem steps_last {c d last : Moment ε} (hlast : Steps c last) (hnone : last.next? = none)
    (hd : Steps c d) : Steps d last := by
  rcases Relation.ReflTransGen.total_of_right_unique rightUnique_step hlast hd with h | h
  · rcases Relation.ReflTransGen.cases_head h with rfl | ⟨c', hstep, -⟩
    · exact .refl
    · exact absurd (hnone.symm.trans hstep) nofun
  · exact h

/-- What is pending lets a stop through, unless frames are missing. -/
theorem stop_of_step {c c' : Moment ε} (h : Step c c') {s : Stop}
    (hc : c.focus = .ended (.error s)) :
    c'.focus = .ended (.error s) ∨
      ∃ count depth, c'.focus = .ended (.error (.crash (.emptyStack count depth))) := by
  obtain ⟨focus, pending, m⟩ := c
  obtain rfl : focus = .ended (.error s) := hc
  rcases pending with - | ⟨p, pending⟩
  · cases h
  obtain rfl : resume pending m p (.error s) = c' := Option.some.inj h
  cases p with
  | frames count =>
    rcases s with f | crash
    · have hresume : resume pending m (.frames count) (.error (.fault f))
          = after pending ((remove count >>= fun _ => check (.error (.fault f))) m) := rfl
      rw [hresume]
      rcases e : m.environment.pop? count with - | environment
      · rw [bind_of_error (remove_of_no_pop e)]
        exact .inr ⟨_, _, rfl⟩
      · rw [bind_of_ok (remove_of_pop e)]
        exact .inl rfl
    · exact .inl rfl
  | level | lists | argument | definition => exact .inl rfl

/-- **A stop is never caught**: it is what everything ends with, unless frames are missing. -/
theorem stop_of_steps {c c' : Moment ε} (h : Steps c c') {s : Stop}
    (hc : c.focus = .ended (.error s)) :
    c'.focus = .ended (.error s) ∨
      ∃ count depth, c'.focus = .ended (.error (.crash (.emptyStack count depth))) := by
  induction h with
  | refl => exact .inl hc
  | tail _ hstep ih =>
    rcases ih with hs | ⟨count, depth, hcrash⟩
    · exact stop_of_step hstep hs
    · rcases stop_of_step hstep hcrash with hs | hcrash
      · exact .inr ⟨count, depth, hs⟩
      · exact .inr hcrash

/-- Where the next step goes too deep, it comes to the stop for that. -/
theorem step_of_full {c : Moment ε} {site : Site} (h : c.Full site) :
    ∃ c', Step c c' ∧ c'.focus = .ended (.error site.tooDeep) := by
  obtain ⟨t | r, pending, m⟩ := c
  · refine ⟨_, step_task t pending m, ?_⟩
    have hfull : levelLimit ≤ m.level := h.2
    cases move_start pending m t with
    | deeper site body attempt left level levels focus => exact absurd left (Nat.not_lt.2 hfull)
    | full site' attempt full level levels focus =>
      obtain rfl : site = site' := Option.some.inj (h.1.symm.trans attempt)
      exact focus
    | leave attempt level levels focus => exact absurd (h.1.symm.trans attempt) nofun
    | flat attempt level levels stop => exact absurd (h.1.symm.trans attempt) nofun
  · exact absurd h.1 nofun

end Moment

open Moment

/-- In one go a task changes no frame but the innermost one, and misses none. -/
theorem Task.extends_action {e : Evaluator ε} (h : e.Balanced) (t : Task) :
    Leaves Machine.Extended (t.action e) := by
  induction t with
  | expr source x => exact (h.expr source x).extends
  | scope source program => exact (h.scope source program).extends
  | call site callee args => exact (h.call site callee args).extends
  | chain source callee lists =>
    refine leaves_bind (h.expr source callee).extends fun v => ?_
    exact (Evaluator.restores_lists h source callee.span lists v).extends
  | lists source callee span lists =>
    exact (Evaluator.restores_lists h source span lists callee).extends
  | arguments source callee span list args todo more =>
    refine leaves_bind (Evaluator.restores_items h source todo).extends fun rest => ?_
    refine leaves_bind (h.call _ callee _).extends fun w => ?_
    exact (Evaluator.restores_lists h source _ more w).extends
  | definitions source ds result =>
    refine leaves_bind (Evaluator.extends_definitions h source ds) fun _ => ?_
    exact (h.expr source result).extends
  | inside site frame frames body ih =>
    exact (restores_inside site (List.cons_ne_nil frame frames) ih).extends

/-! ### Outcomes -/

/-- What a task comes to on a machine, in one go. -/
def Task.outcome (t : Task) (m : Machine Code ε) : Except Stop (Value Code) :=
  (t.action m.evaluator).outcome m

namespace Task

/-- The steps from a task lead to its outcome, behind which nothing is left to do. -/
theorem steps_outcome (t : Task) (m : Machine Code ε) :
    ∃ last, Steps ⟨.task t, [], m⟩ last ∧ last.next? = none ∧
      last.focus = .ended (t.outcome m) := by
  have hwalks := walks_evaluator (ε := ε) (levelLimit - m.level) m.level rfl
  have hsteps : Steps _ (after [] (t.action m.evaluator m)) :=
    Evaluator.reaches_action hwalks (balanced_evaluator _) t m rfl []
  refine ⟨_, hsteps, ?_⟩
  rw [outcome, Action.outcome]
  rcases t.action m.evaluator m with ⟨v, m'⟩ | ⟨s, m'⟩
  · exact ⟨rfl, rfl⟩
  · exact ⟨rfl, rfl⟩

/-- A task does not come to a crash for missing frames. -/
theorem hasFrames_outcome (t : Task) (m : Machine Code ε) {s : Stop}
    (h : t.outcome m = .error s) : s.HasFrames := by
  have hleaves := t.extends_action (balanced_evaluator (ε := ε) (levelLimit - m.level)) m
  rw [outcome, Action.outcome] at h
  rcases e : t.action m.evaluator m with ⟨v, m'⟩ | ⟨f | c, m'⟩ <;> rw [e] at h <;> cases h
  · exact nofun
  · exact (ends_of_error e).1 hleaves

/-- The stop of a step that goes too deep is what the task comes to. -/
theorem outcome_of_full (t : Task) (m : Machine Code ε) {c : Moment ε} {site : Site}
    (hc : Steps ⟨.task t, [], m⟩ c) (h : c.Full site) : t.outcome m = .error site.tooDeep := by
  obtain ⟨last, hlast, hnone, hfocus⟩ := t.steps_outcome m
  obtain ⟨c', hstep, hc'⟩ := step_of_full h
  rcases stop_of_steps (steps_last hlast hnone (hc.tail hstep)) hc' with hs | ⟨count, depth, hcrash⟩
  · exact Focus.ended.inj (hfocus.symm.trans hs)
  · have houtcome := Focus.ended.inj (hfocus.symm.trans hcrash)
    exact absurd rfl (t.hasFrames_outcome m houtcome count depth)

/-- A task that is placed comes to a placed value or to a stop that points at a good place. -/
theorem placed_outcome {P : Text → Nat → Prop} (t : Task) (m : Machine Code ε) (ht : t.Placed P)
    (hm : m.environment.Placed P) : Fits (Value.Placed P) (Stop.Pointed P) (t.outcome m) := by
  obtain ⟨last, hlast, -, hfocus⟩ := t.steps_outcome m
  have hplaced : last.focus.Placed P := (placed_of_steps hlast ⟨ht, nofun, hm⟩).focus
  rw [hfocus] at hplaced
  rcases h : t.outcome m with s | v <;> rw [h] at hplaced
  · exact hplaced (t.hasFrames_outcome m h)
  · exact hplaced

end Task

/-! ### Termination -/

/-- A fault for too many levels is of that kind. -/
theorem Site.kind_tooDeep {site : Site} {f : Fault} (h : site.tooDeep = .fault f) :
    f.kind = .depth := by
  unfold Site.tooDeep Site.blame Stop.at Fault.at? at h
  generalize site.source.position? site.start = p at h
  rcases p with - | p
  · cases h
  · cases h
    rfl

/-- **Evaluation ends.**  Whatever is to be done on whatever machine, step by step
it comes to its outcome.  At every moment the machine counts the levels that are
pending, on top of those at the start, and never more than `levelLimit`.  A step
that goes deeper than that decides the outcome, and a fault for too many levels
comes from such a step.  If everything starts where its text has a position, the
outcome is a value or a fault, and for too many levels exactly if there is such
a step. -/
theorem evaluation_ends (t : Task) (m : Machine Code ε) :
    (∃ last, Steps ⟨.task t, [], m⟩ last ∧ last.next? = none ∧
      last.focus = .ended (t.outcome m)) ∧
    (∀ c, Steps ⟨.task t, [], m⟩ c → c.machine.level = m.level + c.levels ∧
      (m.level ≤ levelLimit → c.machine.level ≤ levelLimit)) ∧
    (∀ c site, Steps ⟨.task t, [], m⟩ c → c.Full site → t.outcome m = .error site.tooDeep) ∧
    (∀ f, t.outcome m = .error (.fault f) → f.kind = .depth →
      ∃ c site, Steps ⟨.task t, [], m⟩ c ∧ c.Full site ∧ site.tooDeep = .fault f) ∧
    (t.Placed Text.HasPosition → m.environment.Placed Text.HasPosition →
      ((∃ v, t.outcome m = .ok v) ∨ ∃ f, t.outcome m = .error (.fault f)) ∧
      ((∃ f, t.outcome m = .error (.fault f) ∧ f.kind = .depth) ↔
        ∃ c site, Steps ⟨.task t, [], m⟩ c ∧ c.Full site)) := by
  have hfull : ∀ c site, Steps ⟨.task t, [], m⟩ c → c.Full site →
      t.outcome m = .error site.tooDeep := fun c site => t.outcome_of_full m
  have hdepth : ∀ f, t.outcome m = .error (.fault f) → f.kind = .depth →
      ∃ c site, Steps ⟨.task t, [], m⟩ c ∧ c.Full site ∧ site.tooDeep = .fault f := by
    intro f hf hkind
    obtain ⟨last, hlast, -, hfocus⟩ := t.steps_outcome m
    obtain ⟨c, site, hc, hsite, heq⟩ := full_of_depth hlast hkind nofun (hf ▸ hfocus)
    exact ⟨c, site, hc, hsite, heq.symm⟩
  refine ⟨t.steps_outcome m, fun c hc => ?_, hfull, hdepth, fun ht hm => ?_⟩
  · exact ⟨level_of_steps hc rfl, limit_of_steps hc⟩
  have hends : (∃ v, t.outcome m = .ok v) ∨ ∃ f, t.outcome m = .error (.fault f) := by
    have hplaced := t.placed_outcome m ht hm
    rcases e : t.outcome m with s | v <;> rw [e] at hplaced
    · obtain ⟨f, -, -, -, rfl, -⟩ := Stop.Pointed.fault hplaced fun _ _ h => h
      exact .inr ⟨f, rfl⟩
    · exact .inl ⟨v, rfl⟩
  refine ⟨hends, ⟨?_, ?_⟩⟩
  · rintro ⟨f, hf, hkind⟩
    obtain ⟨c, site, hc, hsite, -⟩ := hdepth f hf hkind
    exact ⟨c, site, hc, hsite⟩
  · rintro ⟨c, site, hc, hsite⟩
    have houtcome := hfull c site hc hsite
    rcases hends with ⟨v, hv⟩ | ⟨f, hf⟩
    · exact absurd (houtcome.symm.trans hv) nofun
    · exact ⟨f, hf, Site.kind_tooDeep (Except.error.inj (houtcome.symm.trans hf))⟩

/-- The program `def w (x) x(x) w(w)`, in which a function is called with itself. -/
def selfProgram : Scope :=
  ⟨[⟨"w".toList, ⟨4, 5⟩,
      ⟨[], .function [⟨"x".toList, ⟨7, 8⟩⟩]
        (.calls (.atom (.name "x".toList) ⟨10, 11⟩)
          [⟨[.atom (.name "x".toList) ⟨12, 13⟩], ⟨11, 14⟩⟩] ⟨10, 14⟩) ⟨6, 14⟩, ⟨6, 14⟩⟩, ⟨0, 14⟩⟩],
   .calls (.atom (.name "w".toList) ⟨15, 16⟩)
    [⟨[.atom (.name "w".toList) ⟨17, 18⟩], ⟨16, 19⟩⟩] ⟨15, 19⟩, ⟨0, 19⟩⟩

/-- The text of `selfProgram`. -/
def selfSource : Text := "def w (x) x(x) w(w)".toList

/-- A machine with six levels left. -/
def nearlyFull : Machine Code Unit := { Machine.initial () with level := 122 }

theorem placed_selfProgram : selfProgram.Placed Text.HasPosition selfSource := by
  have hlist : ∀ {x : Expr} {span : Span}, x.Placed Text.HasPosition selfSource →
      ∀ list ∈ [(⟨[x], span⟩ : Arguments Expr)], ∀ y ∈ list.items,
        y.Placed Text.HasPosition selfSource :=
    fun hx => List.forall_mem_singleton.2 (List.forall_mem_singleton.2 hx)
  refine .mk (by decide) ?_ ?_ ?_ ?_
  · exact List.forall_mem_singleton.2 (by decide)
  · exact List.forall_mem_singleton.2 (by decide)
  · refine List.forall_mem_singleton.2 (.mk (by decide) (List.forall_mem_nil _)
      (List.forall_mem_nil _) (List.forall_mem_nil _) ?_)
    refine .function (by decide) (.calls (by decide) (.atom (by decide)) ?_)
    exact hlist (.atom (by decide))
  · exact .calls (by decide) (.atom (by decide)) (hlist (.atom (by decide)))

/-- A function that calls itself without end comes to a fault for too many levels,
and on the way no more than those were active. -/
theorem evaluation_ends_self :
    (∃ f, (Task.scope selfSource selfProgram).outcome nearlyFull = .error (.fault f) ∧
      f.kind = .depth) ∧
    ∃ c site, Steps ⟨.task (.scope selfSource selfProgram), [], nearlyFull⟩ c ∧ c.Full site ∧
      c.machine.level = levelLimit ∧ c.levels = 6 := by
  obtain ⟨-, hlevels, -, -, hplaced⟩ :=
    evaluation_ends (.scope selfSource selfProgram) nearlyFull
  obtain ⟨-, hdepth⟩ := hplaced placed_selfProgram Environment.placed_empty
  have houtcome : (Task.scope selfSource selfProgram).outcome nearlyFull
      = .error (.fault ⟨.levels .depth levelLimit, "deeper nesting".toList, 1, 11⟩) := by
    cbv
  refine ⟨⟨_, houtcome, rfl⟩, ?_⟩
  obtain ⟨c, site, hc, hfull⟩ := hdepth.1 ⟨_, houtcome, rfl⟩
  obtain ⟨hlevel, hlimit⟩ := hlevels c hc
  have hmax : c.machine.level = levelLimit := Nat.le_antisymm (hlimit (by decide)) hfull.2
  refine ⟨c, site, hc, hfull, hmax, ?_⟩
  have hstart : nearlyFull.level = 122 := rfl
  rw [hmax, hstart, levelLimit] at hlevel
  omega

end DrawLang
