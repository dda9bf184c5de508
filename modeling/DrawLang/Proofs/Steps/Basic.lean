/-
DrawLang/Proofs/Steps/Basic.lean

Evaluation in single steps.  At each moment there is something to do, or
something has ended, and what is to be done with its outcome is pending.  A step
looks at nothing but that and the machine; in particular the level comes from
the machine alone, and nothing says beforehand how many steps there will be.

What is pending is a row, innermost first.  An active level is an entry of it,
and so are the frames that are to be removed; a stop goes through all entries,
which is how it unwinds them.

Main statement: what is to be done comes to the same, step by step, as in one go
with an evaluator whose parts do (`Evaluator.reaches`).
-/
import Mathlib.Logic.Relation
import DrawLang.Evaluation
import DrawLang.Proofs.Evaluation.Balance
import DrawLang.Proofs.Reference.BigStep

namespace DrawLang

open DrawLang.Action

variable {ε : Type}

/-! ### Moments -/

/-- Something to do. -/
inductive Task where
  | expr (source : Text) (x : Expr)
  | scope (source : Text) (program : Scope)
  | call (site : Site) (callee : Value Code) (args : List (Value Code))
  /-- Evaluate a callee and call it with one argument list after another. -/
  | chain (source : Text) (callee : Expr) (lists : List (Arguments Expr))
  /-- Call a value with one argument list after another. -/
  | lists (source : Text) (callee : Value Code) (span : Span) (lists : List (Arguments Expr))
  /-- The same, in the middle of the first list. -/
  | arguments (source : Text) (callee : Value Code) (span : Span) (list : Arguments Expr)
    (args : List (Value Code)) (todo : List Expr) (more : List (Arguments Expr))
  | definitions (source : Text) (ds : List (Definition Scope)) (result : Expr)
  /-- Do something with frames added. -/
  | inside (site : Site) (frame : Bindings) (frames : List Bindings) (body : Task)

/-- What is to be done with the outcome of something else. -/
inductive Pending where
  /-- Call it with one argument list after another. -/
  | lists (source : Text) (span : Span) (lists : List (Arguments Expr))
  /-- It is an argument. -/
  | argument (source : Text) (callee : Value Code) (span : Span) (list : Arguments Expr)
    (args : List (Value Code)) (todo : List Expr) (more : List (Arguments Expr))
  /-- Define a name by it. -/
  | definition (source : Text) (first : Definition Scope) (ds : List (Definition Scope))
    (result : Expr)
  /-- Remove frames. -/
  | frames (count : Nat)
  /-- A level ends. -/
  | level

/-- What goes on at a moment: something is to be done, or has ended. -/
inductive Focus where
  | task (t : Task)
  | ended (r : Except Stop (Value Code))

/-- A moment of an evaluation. -/
structure Moment (ε : Type) where
  focus : Focus
  /-- What is pending, innermost first. -/
  pending : List Pending
  machine : Machine Code ε

namespace Moment

/-- The moment when an action has ended. -/
def after (pending : List Pending) :
    EStateM.Result Stop (Machine Code ε) (Value Code) → Moment ε
  | .ok v m => ⟨.ended (.ok v), pending, m⟩
  | .error s m => ⟨.ended (.error s), pending, m⟩

/-- Go one level deeper, if a level is left. -/
def enter (pending : List Pending) (m : Machine Code ε) (site : Site) (body : Task) : Moment ε :=
  if levelLimit ≤ m.level then ⟨.ended (.error site.tooDeep), pending, m⟩
  else ⟨.task body, .level :: pending, { m with level := m.level + 1 }⟩

/-- The next moment when something is to be done. -/
def start (pending : List Pending) (m : Machine Code ε) : Task → Moment ε
  | .expr source (.atom a span) => after pending (a.value source span m)
  | .expr source (.function params body _) =>
    after pending
      (close (params.map Param.name) ⟨body, source⟩ (Code.literalText params ⟨body, source⟩) m)
  | .expr source (.calls callee lists span) =>
    enter pending m (.plain source span) (.chain source callee lists)
  | .scope source program =>
    enter pending m (.plain source program.span)
      (.inside (.plain source program.span) [] [] (.definitions source program.definitions
        program.result))
  | .call site (.function f) args =>
    if f.arity.accepts args.length then
      enter pending m site
        (.inside site (f.locals args) f.closure (.expr f.body.source f.body.expr))
    else ⟨.ended (.error (blameArity site f.arity args.length)), pending, m⟩
  | .call site callee args => after pending (Action.call none site callee args m)
  | .chain source callee lists =>
    ⟨.task (.expr source callee), .lists source callee.span lists :: pending, m⟩
  | .lists _ callee _ [] => ⟨.ended (.ok callee), pending, m⟩
  | .lists source callee span (list :: more) =>
    ⟨.task (.arguments source callee span list [] list.items more), pending, m⟩
  | .arguments source callee span list args [] more =>
    ⟨.task (.call (list.site source span) callee args),
      .lists source (span.upTo list.span) more :: pending, m⟩
  | .arguments source callee span list args (x :: todo) more =>
    ⟨.task (.expr source x), .argument source callee span list args todo more :: pending, m⟩
  | .definitions source [] result => ⟨.task (.expr source result), pending, m⟩
  | .definitions source (first :: ds) result =>
    ⟨.task (.scope source first.body), .definition source first ds result :: pending, m⟩
  | .inside site frame frames body =>
    match checkpoint site { m with environment := m.environment.push (frame :: frames) } with
    | .ok () m => ⟨.task body, .frames (frames.length + 1) :: pending, m⟩
    | .error s m => ⟨.ended (.error s), .frames (frames.length + 1) :: pending, m⟩

theorem start_call_of_plain (pending : List Pending) (m : Machine Code ε) (site : Site)
    {callee : Value Code} (args : List (Value Code)) (h : ∀ f, callee ≠ .function f) :
    start pending m (.call site callee args)
      = after pending (Action.call none site callee args m) := by
  cases callee with
  | function f => exact absurd rfl (h f)
  | number | string | color | sequence | vector | shape | builtin => rfl

/-- The next moment when something has ended. -/
def resume (pending : List Pending) (m : Machine Code ε) :
    Pending → Except Stop (Value Code) → Moment ε
  | .level, r => ⟨.ended r, pending, { m with level := m.level - 1 }⟩
  | .frames _, .error (.crash c) => ⟨.ended (.error (.crash c)), pending, m⟩
  | .frames count, r => after pending ((remove count >>= fun _ => check r) m)
  | .lists source span lists, .ok v => ⟨.task (.lists source v span lists), pending, m⟩
  | .argument source callee span list args todo more, .ok v =>
    ⟨.task (.arguments source callee span list (args ++ [v]) todo more), pending, m⟩
  | .definition source first ds result, .ok v =>
    match define (first.site source) first.name v m with
    | .ok () m => ⟨.task (.definitions source ds result), pending, m⟩
    | .error s m => ⟨.ended (.error s), pending, m⟩
  | _, .error s => ⟨.ended (.error s), pending, m⟩

/-- The next moment, if this is not the last one. -/
def next? : Moment ε → Option (Moment ε)
  | ⟨.task t, pending, m⟩ => some (start pending m t)
  | ⟨.ended _, [], _⟩ => none
  | ⟨.ended r, p :: pending, m⟩ => some (resume pending m p r)

/-- One moment comes right behind another one. -/
def Step (c c' : Moment ε) : Prop := c.next? = some c'

/-- One moment comes behind another one, sooner or later. -/
abbrev Steps : Moment ε → Moment ε → Prop := Relation.ReflTransGen Step

theorem step_task (t : Task) (pending : List Pending) (m : Machine Code ε) :
    Step ⟨.task t, pending, m⟩ (start pending m t) :=
  rfl

theorem step_ended (r : Except Stop (Value Code)) (p : Pending) (pending : List Pending)
    (m : Machine Code ε) : Step ⟨.ended r, p :: pending, m⟩ (resume pending m p r) :=
  rfl

end Moment

open Moment

/-! ### In one go -/

/-- What there is to do, in one go. -/
def Task.action (e : Evaluator ε) : Task → Action Code ε (Value Code)
  | .expr source x => e.expr source x
  | .scope source program => e.scope source program
  | .call site callee args => e.call site callee args
  | .chain source callee ls => do
    let v ← e.expr source callee
    e.lists source v callee.span ls
  | .lists source callee span ls => e.lists source callee span ls
  | .arguments source callee span list args todo more => do
    let rest ← e.items source todo
    let v ← e.call (list.site source span) callee (args ++ rest)
    e.lists source v (span.upTo list.span) more
  | .definitions source ds result => do
    e.definitions source ds
    e.expr source result
  | .inside site frame frames body => Action.inside site (frame :: frames) (body.action e)

/-- Step by step a task comes to the same as an action, whatever is pending. -/
def Task.Reaches (t : Task) (a : Action Code ε (Value Code)) (m : Machine Code ε) : Prop :=
  ∀ pending, Steps ⟨.task t, pending, m⟩ (after pending (a m))

/-- What comes behind a first step comes behind a task. -/
theorem Task.reaches_of_start {t : Task} {a : Action Code ε (Value Code)} {m : Machine Code ε}
    (h : ∀ pending, Steps (start pending m t) (after pending (a m))) : t.Reaches a m :=
  fun pending => (h pending).head (step_task t pending m)

/-- A task and then what is pending, if that only goes on with a value. -/
theorem Task.Reaches.bind {t : Task} {a : Action Code ε (Value Code)} {m : Machine Code ε}
    (h : t.Reaches a m) {p : Pending} {f : Value Code → Action Code ε (Value Code)}
    {pending : List Pending}
    (hstop : ∀ s (m' : Machine Code ε),
      resume pending m' p (.error s) = ⟨.ended (.error s), pending, m'⟩)
    (hvalue : ∀ v m', a m = .ok v m' →
      Steps (resume pending m' p (.ok v)) (after pending (f v m'))) :
    Steps ⟨.task t, p :: pending, m⟩ (after pending ((a >>= f) m)) := by
  have ha := h (p :: pending)
  rcases e : a m with ⟨v, m'⟩ | ⟨s, m'⟩ <;> rw [e] at ha
  · rw [bind_of_ok e]
    exact (ha.tail (step_ended _ p pending m')).trans (hvalue v m' e)
  · rw [bind_of_error e]
    exact ha.tail ((step_ended _ p pending m').trans (congrArg some (hstop s m')))

/-- Where `d` levels are active, the parts of an evaluator come to the same as their steps. -/
structure Evaluator.Walks (d : Nat) (e : Evaluator ε) : Prop where
  expr : ∀ source x (m : Machine Code ε), m.level = d →
    (Task.expr source x).Reaches (e.expr source x) m
  scope : ∀ source program (m : Machine Code ε), m.level = d →
    (Task.scope source program).Reaches (e.scope source program) m
  call : ∀ site callee args (m : Machine Code ε), m.level = d →
    (Task.call site callee args).Reaches (e.call site callee args) m

namespace Evaluator

variable {d : Nat} {e : Evaluator ε}

/-- Behind a value of an action that restores the machine as many levels are active. -/
theorem level_of_ok {a : Action Code ε (Value Code)} (h : Leaves Machine.Extended a)
    {m m' : Machine Code ε} {v : Value Code} (he : a m = .ok v m') (hm : m.level = d) :
    m'.level = d := by
  have hm' : Machine.Extended m m' := (ends_of_ok he).1 (h m)
  exact hm'.level.trans hm

theorem reaches_arguments (h : e.Walks d) (hb : e.Balanced) (source : Text) (callee : Value Code)
    (span : Span) (list : Arguments Expr) {more : List (Arguments Expr)}
    (hmore : ∀ w (m : Machine Code ε), m.level = d →
      (Task.lists source w (span.upTo list.span) more).Reaches
        (e.lists source w (span.upTo list.span) more) m)
    (todo : List Expr) (args : List (Value Code)) (m : Machine Code ε) (hm : m.level = d) :
    (Task.arguments source callee span list args todo more).Reaches
      ((Task.arguments source callee span list args todo more).action e) m := by
  induction todo generalizing args m with
  | nil =>
    refine Task.reaches_of_start fun pending => ?_
    simp only [Task.action, items, pure_bind, List.append_nil]
    refine (h.call (list.site source span) callee args m hm).bind
      (p := .lists source (span.upTo list.span) more) (fun _ _ => rfl) fun w m' hw => ?_
    exact hmore w m' (level_of_ok (hb.call _ callee args).extends hw hm) pending
  | cons x todo ih =>
    have haction : (Task.arguments source callee span list args (x :: todo) more).action e
        = e.expr source x >>= fun v =>
          (Task.arguments source callee span list (args ++ [v]) todo more).action e := by
      simp only [Task.action, items, bind_assoc, pure_bind, List.append_assoc,
        List.singleton_append]
    refine Task.reaches_of_start fun pending => ?_
    rw [haction]
    refine (h.expr source x m hm).bind
      (p := .argument source callee span list args todo more) (fun _ _ => rfl) fun v m' hv => ?_
    exact ih (args ++ [v]) m' (level_of_ok (hb.expr source x).extends hv hm) pending

theorem reaches_lists (h : e.Walks d) (hb : e.Balanced) (source : Text)
    (lists : List (Arguments Expr)) (v : Value Code) (span : Span) (m : Machine Code ε)
    (hm : m.level = d) :
    (Task.lists source v span lists).Reaches (e.lists source v span lists) m := by
  induction lists generalizing v span m with
  | nil => exact Task.reaches_of_start fun pending => .refl
  | cons list more ih =>
    have hlist := reaches_arguments h hb source v span list (fun w m => ih w _ m) list.items [] m hm
    exact Task.reaches_of_start hlist

theorem reaches_definitions (h : e.Walks d) (hb : e.Balanced) (source : Text) (result : Expr)
    (ds : List (Definition Scope)) (m : Machine Code ε) (hm : m.level = d) :
    (Task.definitions source ds result).Reaches
      ((Task.definitions source ds result).action e) m := by
  induction ds generalizing m with
  | nil => exact Task.reaches_of_start (h.expr source result m hm)
  | cons first ds ih =>
    have haction : (Task.definitions source (first :: ds) result).action e
        = e.scope source first.body >>= fun v => define (first.site source) first.name v >>=
          fun _ => (Task.definitions source ds result).action e := by
      simp only [Task.action, definitions, bind_assoc]
      rfl
    refine Task.reaches_of_start fun pending => ?_
    rw [haction]
    refine (h.scope source first.body m hm).bind
      (p := .definition source first ds result) (fun _ _ => rfl) fun v m' hv => ?_
    have hm' := level_of_ok (hb.scope source first.body).extends hv hm
    -- the name is bound in the same step in which the value is there
    rcases e : define (first.site source) first.name v m' with ⟨u, m''⟩ | ⟨s, m''⟩
    · have hm'' : m''.level = d := by
        have hdefine : Machine.Extended m' m'' := (ends_of_ok e).1 (rules_restores.define _ _ v m')
        exact hdefine.level.trans hm'
      have hresume : resume pending m' (.definition source first ds result) (.ok v)
          = ⟨.task (.definitions source ds result), pending, m''⟩ := by
        rw [resume, e]
      rw [hresume, bind_of_ok e]
      exact ih m'' hm'' pending
    · have hresume : resume pending m' (.definition source first ds result) (.ok v)
          = ⟨.ended (.error s), pending, m''⟩ := by
        rw [resume, e]
      rw [hresume, bind_of_error e]
      exact .refl

theorem reaches_inside {site : Site} {frame : Bindings} {frames : List Bindings} {body : Task}
    {a : Action Code ε (Value Code)} {m : Machine Code ε} (hm : m.level = d)
    (h : ∀ m' : Machine Code ε, m'.level = d → body.Reaches a m') :
    (Task.inside site frame frames body).Reaches (Action.inside site (frame :: frames) a) m := by
  refine Task.reaches_of_start fun pending => ?_
  -- the frames are there from the checkpoint on, and are pending to be removed
  have hpending : ∀ r : EStateM.Result Stop (Machine Code ε) (Value Code),
      (checkpoint site >>= fun _ => a)
          { m with environment := m.environment.push (frame :: frames) } = r →
      Steps (after (.frames (frames.length + 1) :: pending) r)
        (after pending (Action.inside site (frame :: frames) a m)) := by
    rintro (⟨v, m'⟩ | ⟨f | c, m'⟩) e
    · rw [inside_of_ok e]
      exact .single (step_ended _ _ _ _)
    · rw [inside_of_fault e]
      exact .single (step_ended _ _ _ _)
    · rw [inside_of_crash e]
      exact .single (step_ended _ _ _ _)
  refine .trans ?_ (hpending _ rfl)
  rw [start]
  rcases e : checkpoint site { m with environment := m.environment.push (frame :: frames) } with
    ⟨u, m'⟩ | ⟨s, m'⟩
  · have hrestored : Machine.Restored _ m' := (ends_of_ok e).1 (restores_checkpoint site _)
    rw [bind_of_ok e]
    exact h m' (hrestored.level.trans hm) _
  · rw [bind_of_error e]
    exact .refl

/-- **What there is to do comes to the same step by step as in one go**, if the
parts of the evaluator do. -/
theorem reaches_action (h : e.Walks d) (hb : e.Balanced) (t : Task) (m : Machine Code ε)
    (hm : m.level = d) : t.Reaches (t.action e) m := by
  induction t generalizing m with
  | expr source x => exact h.expr source x m hm
  | scope source program => exact h.scope source program m hm
  | call site callee args => exact h.call site callee args m hm
  | chain source callee lists =>
    refine Task.reaches_of_start fun pending => ?_
    refine (h.expr source callee m hm).bind
      (p := .lists source callee.span lists) (fun _ _ => rfl) fun v m' hv => ?_
    have hm' := level_of_ok (hb.expr source callee).extends hv hm
    exact reaches_lists h hb source lists v callee.span m' hm' pending
  | lists source callee span lists => exact reaches_lists h hb source lists callee span m hm
  | arguments source callee span list args todo more =>
    refine reaches_arguments h hb source callee span list (fun w m hm => ?_) todo args m hm
    exact reaches_lists h hb source more w _ m hm
  | definitions source ds result => exact reaches_definitions h hb source result ds m hm
  | inside site frame frames body ih => exact reaches_inside hm ih

/-- A task that takes a level, which is there for its body if it is left. -/
theorem reaches_descend {site : Site} {deeper : Option (Evaluator ε)} {t : Task} (body : Task)
    (hnone : deeper = none → levelLimit ≤ d)
    (hsome : ∀ e, deeper = some e → d < levelLimit ∧ e.Walks (d + 1) ∧ e.Balanced)
    (hstart : ∀ pending (m : Machine Code ε), start pending m t = enter pending m site body)
    (m : Machine Code ε) (hm : m.level = d) :
    t.Reaches (descend site deeper fun e => body.action e) m := by
  refine Task.reaches_of_start fun pending => ?_
  rw [hstart, enter]
  rcases deeper with - | e
  · rw [if_pos (hm ▸ hnone rfl)]
    exact .refl
  · obtain ⟨hd, hwalks, hb⟩ := hsome e rfl
    rw [if_neg (hm ▸ Nat.not_le.2 hd)]
    have hbody := reaches_action hwalks hb body { m with level := m.level + 1 } (by rw [hm])
      (.level :: pending)
    rcases he : body.action e { m with level := m.level + 1 } with ⟨v, m'⟩ | ⟨s, m'⟩ <;>
      rw [he] at hbody
    · have hdescend : descend site (some e) (fun e => body.action e) m
          = .ok v { m' with level := m'.level - 1 } := descend_of_ok he
      rw [hdescend]
      exact hbody.tail (step_ended _ _ _ _)
    · have hdescend : descend site (some e) (fun e => body.action e) m
          = .error s { m' with level := m'.level - 1 } := descend_of_error he
      rw [hdescend]
      exact hbody.tail (step_ended _ _ _ _)

theorem walks_step {deeper : Option (Evaluator ε)} (hnone : deeper = none → levelLimit ≤ d)
    (hsome : ∀ e, deeper = some e → d < levelLimit ∧ e.Walks (d + 1) ∧ e.Balanced) :
    (step deeper).Walks d where
  expr source x m hm := by
    rcases x with ⟨a, span⟩ | ⟨params, body, span⟩ | ⟨callee, lists, span⟩
    · exact Task.reaches_of_start fun pending => .refl
    · exact Task.reaches_of_start fun pending => .refl
    · exact reaches_descend (.chain source callee lists) hnone hsome (fun _ _ => rfl) m hm
  scope source program m hm :=
    reaches_descend (.inside (.plain source program.span) [] []
      (.definitions source program.definitions program.result)) hnone hsome (fun _ _ => rfl) m hm
  call site callee args m hm := by
    by_cases hf : ∃ f, callee = .function f
    · obtain ⟨f, rfl⟩ := hf
      show (Task.call site (.function f) args).Reaches (callFunction _ site f args) m
      unfold callFunction
      rcases haccepts : f.arity.accepts args.length with - | -
      · refine Task.reaches_of_start fun pending => ?_
        rw [start, haccepts]
        exact .refl
      · rw [descend_map]
        refine reaches_descend (.inside site (f.locals args) f.closure
          (.expr f.body.source f.body.expr)) hnone hsome (fun pending m => ?_) m hm
        rw [start, haccepts]
        rfl
    · have hplain : ∀ f, callee ≠ .function f := fun f hc => hf ⟨f, hc⟩
      refine Task.reaches_of_start fun pending => ?_
      show Steps _ (after pending (Action.call _ site callee args m))
      rw [start_call_of_plain pending m site args hplain, call_eq_settle _ _ _ _ hplain,
        call_eq_settle _ _ _ _ hplain]

end Evaluator

/-- **An evaluator comes to the same as its steps**, with the levels that are left. -/
theorem walks_evaluator (levels d : Nat) (h : levelLimit - d = levels) :
    (evaluator levels : Evaluator ε).Walks d := by
  induction levels generalizing d with
  | zero => exact Evaluator.walks_step (fun _ => Nat.le_of_sub_eq_zero h) nofun
  | succ levels ih =>
    refine Evaluator.walks_step nofun fun e he => ?_
    obtain rfl := Option.some.inj he
    exact ⟨by omega, ih (d + 1) (by omega), balanced_evaluator levels⟩

end DrawLang
