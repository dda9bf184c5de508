/-
DrawLang/Proofs/Evaluation/Scoped.lean

Well-scoped programs find all their names.  An expression is safe where each of
its free names means a closed value: whatever it comes to, it is a closed value
or a fault about something else than a name (`Safe`).  Functions carry what
they need with them, so a call of a closed value with closed arguments is safe
on any machine.

Main statement: no program that is well scoped ends in a fault about a name, and
neither does a call of anything that a host can make of its value
(`well_scoped_programs_find_names`).
-/
import Mathlib
import DrawLang.Proofs.Evaluation.Balance
import DrawLang.Proofs.Value.Closed

namespace DrawLang

open DrawLang.Action Machine

variable {ε α γ δ : Type}

/-! ### Stops that blame no name -/

/-- The stop is no fault about a name. -/
def Stop.Nameless (s : Stop) : Prop := ∀ f, s = .fault f → f.kind ≠ .identifier

/-! ### Safe actions -/

namespace Action

/-- The action comes to a result with a property or to a stop that blames no name. -/
def Safe (P : α → Prop) (a : Action Code ε α) (m : Machine Code ε) : Prop :=
  a.Ends m fun
    | .ok v, _ => P v
    | .error s, _ => s.Nameless

variable {P : α → Prop} {Q : γ → Prop} {m : Machine Code ε}

theorem safe_pure {v : α} (h : P v) : Safe P (pure v : Action Code ε α) m := h

theorem safe_throw {s : Stop} (h : s.Nameless) : Safe P (throw s : Action Code ε α) m := h

/-- What is not being defined is closed. -/
theorem Safe.closed {a : Action Code ε (Value Code)} (h : Safe (ClosedAs none) a m) :
    Safe Closed a m := by
  refine Ends.mono h fun r _ hr => ?_
  rcases r with s | v
  · exact hr
  · exact closedAs_none.1 hr

/-- What is closed is so under any name. -/
theorem Safe.closedAs {own : Option Text} {a : Action Code ε (Value Code)}
    (h : Safe Closed a m) : Safe (ClosedAs own) a m := by
  refine Ends.mono h fun r _ hr => ?_
  rcases r with s | v
  · exact hr
  · exact .inl hr

/-- Behind an action that restores the machine, names mean what they meant before. -/
theorem safe_bind {a : Action Code ε α} {f : α → Action Code ε γ} (ha : Safe P a m)
    (hrestores : Restores a)
    (hf : ∀ v m', P v → m'.environment = m.environment → Safe Q (f v) m') :
    Safe Q (a >>= f) m := by
  refine ends_bind.2 ((ha.and (hrestores m)).mono ?_)
  rintro (s | v) m' ⟨hv, hm'⟩
  · exact hv
  · exact hf v m' hv hm'.environment

theorem safe_check {x : Except Stop α} (hok : ∀ v, x = .ok v → P v)
    (herror : ∀ s, x = .error s → s.Nameless) : Safe P (check x : Action Code ε α) m := by
  rcases x with s | v
  · exact herror s rfl
  · exact hok v rfl

theorem safe_checkpoint (site : Site) :
    Safe (fun _ => True) (checkpoint site : Action Code ε Unit) m := by
  rcases hc : m.cancelled with - | -
  · exact (ends_of_ok (checkpoint_of_calm site hc)).2 trivial
  · refine (ends_of_error (checkpoint_of_cancelled site hc)).2 ?_
    exact Stop.avoids_at _ _ _ (by decide)

theorem safe_checkpoints (site : Site) (count : Nat) :
    Safe (fun _ => True) (checkpoints site count : Action Code ε Unit) m := by
  unfold checkpoints
  split
  · exact safe_pure trivial
  · exact safe_checkpoint site

theorem safe_descend (site : Site) {deeper : Option δ} {body : δ → Action Code ε α}
    (h : ∀ d, deeper = some d → Safe P (body d) { m with level := m.level + 1 }) :
    Safe P (descend site deeper body) m := by
  rcases deeper with - | d
  · exact safe_throw (Stop.avoids_at _ _ _ (by decide))
  · have hbody := h d rfl
    rcases e : body d { m with level := m.level + 1 } with ⟨v, m'⟩ | ⟨s, m'⟩
    · exact (ends_of_ok (descend_of_ok e)).2 ((ends_of_ok e).1 hbody)
    · exact (ends_of_error (descend_of_error e)).2 ((ends_of_error e).1 hbody)

/-- Removing frames blames no name, even where they are missing. -/
theorem safe_remove {count : Nat} {a : Action Code ε α} (h : ∀ m', Safe P a m') :
    Safe P (remove count >>= fun _ => a) m := by
  rcases e : m.environment.pop? count with - | environment
  · exact (ends_of_error (bind_of_error (remove_of_no_pop e) _)).2 (Stop.avoids_crash _)
  · rw [Safe, Ends, bind_of_ok (remove_of_pop e)]
    exact h _

theorem safe_inside (site : Site) {frames : List (Frame (Value Code))} {body : Action Code ε α}
    (h : ∀ m', m'.environment = m.environment.push frames → Safe P body m') :
    Safe P (inside site frames body) m := by
  have hbody : Safe P (checkpoint site >>= fun _ => body)
      { m with environment := m.environment.push frames } :=
    safe_bind (safe_checkpoint site) (restores_checkpoint site) fun _ m' _ hm' => h m' hm'
  rcases e : (checkpoint site >>= fun _ => body)
    { m with environment := m.environment.push frames } with ⟨v, m'⟩ | ⟨f | c, m'⟩
  · have hv : P v := (ends_of_ok e).1 hbody
    rw [Safe, Ends, inside_of_ok e]
    exact safe_remove fun _ => safe_pure hv
  · have hf : (Stop.fault f).Nameless := (ends_of_error e).1 hbody
    rw [Safe, Ends, inside_of_fault e]
    exact safe_remove fun _ => safe_throw hf
  · exact (ends_of_error (inside_of_crash e)).2 (Stop.avoids_crash c)

/-- A call of a closed value that is no function. -/
theorem safe_call_of_plan (run : Option (Code → Action Code ε (Value Code))) (site : Site)
    {callee : Value Code} {args : List (Value Code)} (hplain : ∀ f, callee ≠ .function f)
    (hcallee : Closed callee) (hargs : ∀ v ∈ args, Closed v) :
    Safe Closed (Action.call run site callee args) m := by
  rw [call_eq_settle run site callee args hplain]
  have hmisused := Value.misused_plan site args callee
  -- both facts are about the plan, and outlive what it is a plan of
  have hclosed : ∀ count v, callee.plan site args = .ok (count, .ok v) → Closed v :=
    fun _ _ => inherited_closed.plan hcallee hargs site
  generalize callee.plan site args = plan at hmisused hclosed ⊢
  rcases plan with s | ⟨count, result⟩
  · exact safe_throw ((hmisused s rfl).avoids (by decide))
  · show Safe Closed (checkpoints site count >>= fun _ => check result) m
    refine safe_bind (safe_checkpoints site count) (rules_restores.checkpoints site count) ?_
    intro _ m' _ _
    refine safe_check (fun v hv => ?_) fun s hs => ?_
    · exact hclosed count v (hv ▸ rfl)
    · exact (hmisused s hs).avoids (by decide)

end Action

/-! ### Safe evaluators -/

/-- The name means a closed value. -/
def Environment.Finds (e : Environment (Value Code)) (name : Text) : Prop :=
  ∃ v, e.find? name = some v ∧ Closed v

/-- An evaluator is safe wherever the free names mean closed values.  A function
literal may mention besides the name `own` that it is just being defined by. -/
structure Evaluator.Safe (e : Evaluator ε) : Prop where
  expr : ∀ {own : Option Text} {x : Expr} {m : Machine Code ε} (source : Text),
    (∀ name, x.Free name → m.environment.Finds name ∨ own = some name ∧ x.IsFunction) →
      Action.Safe (ClosedAs own) (e.expr source x) m
  scope : ∀ {own : Option Text} {known : Text → Prop} {m : Machine Code ε} (source : Text)
    (program : Scope), (∀ name, known name → m.environment.Finds name) →
      FindNames own known program.definitions program.result →
        Action.Safe (ClosedAs own) (e.scope source program) m
  call : ∀ {m : Machine Code ε} (site : Site) {callee : Value Code} {args : List (Value Code)},
    Closed callee → (∀ v ∈ args, Closed v) → Action.Safe Closed (e.call site callee args) m

namespace Evaluator

variable {e : Evaluator ε} {m : Machine Code ε}

/-- An expression that is not being defined, where all its free names mean closed values. -/
theorem Safe.closed (h : e.Safe) (source : Text) {x : Expr}
    (hx : ∀ name, x.Free name → m.environment.Finds name) :
    Action.Safe Closed (e.expr source x) m := by
  exact (h.expr source fun name hname => .inl (hx name hname)).closed

theorem safe_items (h : e.Safe) (hbal : e.Balanced) (source : Text) {xs : List Expr}
    (hxs : ∀ x ∈ xs, ∀ name, x.Free name → m.environment.Finds name) :
    Action.Safe (fun vs => ∀ v ∈ vs, Closed v) (e.items source xs) m := by
  induction xs generalizing m with
  | nil => exact safe_pure fun v hv => absurd hv List.not_mem_nil
  | cons x xs ih =>
    rw [List.forall_mem_cons] at hxs
    refine safe_bind (h.closed source hxs.1) (hbal.expr source x) fun v m' hv hm' => ?_
    refine safe_bind (ih (hm'.symm ▸ hxs.2)) (restores_items hbal source xs) fun vs _ hvs _ => ?_
    exact safe_pure (List.forall_mem_cons.2 ⟨hv, hvs⟩)

theorem safe_lists (h : e.Safe) (hbal : e.Balanced) (source : Text) (span : Span)
    {lists : List (Arguments Expr)} {v : Value Code} (hv : Closed v)
    (hlists : ∀ list ∈ lists, ∀ x ∈ list.items, ∀ name, x.Free name → m.environment.Finds name) :
    Action.Safe Closed (e.lists source v span lists) m := by
  induction lists generalizing m v span with
  | nil => exact safe_pure hv
  | cons list more ih =>
    rw [List.forall_mem_cons] at hlists
    refine safe_bind (safe_items h hbal source hlists.1) (restores_items hbal source _)
      fun args m' hargs hm' => ?_
    refine safe_bind (h.call _ hv hargs) (hbal.call _ v args) fun w m'' hw hm'' => ?_
    exact ih (span.upTo list.span) hw ((hm''.trans hm').symm ▸ hlists.2)

/-- Definitions and the result behind them are safe if they find their names. -/
theorem safe_definitions (h : e.Safe) (hbal : e.Balanced) (source : Text) {own : Option Text}
    {known : Text → Prop} {ds : List (Definition Scope)} {x : Expr}
    (hfind : FindNames own known ds x) (hknown : ∀ name, known name → m.environment.Finds name) :
    Action.Safe (ClosedAs own) (e.definitions source ds >>= fun _ => e.expr source x) m := by
  induction hfind generalizing m with
  | result hx => exact h.expr source fun name hname => (hx name hname).imp_left (hknown name)
  | @definition own known d ds x hbody _ _ ih =>
    show Action.Safe _ ((e.scope source d.body >>= fun v =>
      define ⟨source, d.span, [d.nameSpan.start]⟩ d.name v >>= fun _ =>
        e.definitions source ds) >>= fun _ => e.expr source x) m
    rw [bind_assoc]
    refine safe_bind (h.scope source d.body hknown hbody) (hbal.scope source d.body)
      fun v m₁ hv hm₁ => ?_
    rcases hlocal : m₁.environment.hasLocal d.name with - | -
    -- a new name means a closed value from here on, and the others mean what they meant
    · obtain ⟨w, m₂, hw, hm₂, hclosed⟩ := closed_named hv m₁
      have hdefine : define ⟨source, d.span, [d.nameSpan.start]⟩ d.name v m₁
          = .ok () { m₂ with environment := m₂.environment.insert d.name w } := by
        rw [define_of_new v hlocal, bind_of_ok hw]
        rfl
      rw [bind_assoc, Action.Safe, Ends, bind_of_ok hdefine]
      refine ih fun name hname => ?_
      show Environment.Finds (m₂.environment.insert d.name w) name
      rw [Environment.Finds, Environment.find?_insert]
      split
      case isTrue => exact ⟨w, rfl, hclosed⟩
      case isFalse hne =>
        rw [hm₂, hm₁]
        exact hknown name (hname.resolve_right (Ne.symm hne))
    · rw [bind_assoc, Action.Safe, Ends, bind_of_error (define_of_bound v hlocal)]
      exact Stop.avoids_at _ _ _ (by decide)

theorem safe_value {own : Option Text} (source : Text) (span : Span) {a : Atom}
    (ha : ∀ name, (Expr.atom a span).Free name → m.environment.Finds name) :
    Action.Safe (ClosedAs own) (a.value source span) m := by
  rcases a with n | t | c | b | id
  case name =>
    obtain ⟨v, hv, hclosed⟩ := ha id (.name span)
    exact (ends_of_ok (known_of_bound hv)).2 (.inl hclosed)
  all_goals exact safe_pure (.inl (by constructor))

/-- A function literal keeps what its free names mean, its own name aside. -/
theorem safe_close {own : Option Text} (params : List Param) (code : Code) {span : Span}
    (h : ∀ name, (Expr.function params code.expr span).Free name →
      m.environment.Finds name ∨ own = some name) :
    Action.Safe (ClosedAs own)
      (close (params.map Param.name) code (code.literalText params)) m := by
  obtain ⟨f, m', hf, hparams, hbody, hname, hkept⟩ :=
    close_keeps m (params.map Param.name) code (code.literalText params)
  refine (ends_of_ok hf).2 (closedAs_of_kept hname fun x hopen => ?_)
  rw [hkept x]
  rw [Function.Open, hparams, hbody] at hopen
  exact h x (.body hopen.1 hopen.2)

/-- In a call of a closed function the free names of its body mean closed values. -/
theorem finds_call {f : Function Code} {args : List (Value Code)} (hf : Closed (.function f))
    (hargs : ∀ v ∈ args, Closed v) (haccepts : f.arity.accepts args.length)
    (site : Environment (Value Code)) {name : Text} (hname : f.body.expr.Free name) :
    (site.push (f.locals args :: f.closure)).Finds name := by
  by_cases hparam : name ∈ f.params
  -- parameters mean arguments, all of which are closed
  · rw [Environment.Finds, Environment.find?_push, List.flatten_cons, Frame.find?_append,
      Option.or_assoc, Function.locals_eq]
    exact Frame.find?_insertAll_zip (R := fun v v' => v' = v ∧ Closed v)
      (P := fun o _ => ∃ v, o.or _ = some v ∧ Closed v) (fun v _ hv => ⟨v, rfl, hv.2⟩)
      (List.forall₂_same.2 fun v hv => ⟨rfl, hargs v hv⟩) ((f.accepts_iff _).1 haccepts)
      f.own f.own (.inl hparam)
  -- any other name means the function itself, or what it keeps
  · have hcall := f.find?_call args site name hparam
    by_cases hown : f.name = some name
    · exact ⟨_, hcall.1 hown, hf⟩
    · obtain ⟨v, hv, hclosed⟩ := closed_function_iff.1 hf name ⟨hparam, hname⟩ hown
      exact ⟨v, hcall.2 hown v hv, hclosed⟩

theorem safe_step {deeper : Option (Evaluator ε)}
    (h : ∀ e, deeper = some e → e.Safe ∧ e.Balanced) : (step deeper).Safe where
  expr {own x m} source hx := by
    rcases x with ⟨a, span⟩ | ⟨params, body, span⟩ | ⟨callee, lists, span⟩
    · exact safe_value source span fun name hname => (hx name hname).resolve_right (·.2)
    · exact safe_close params ⟨body, source⟩ fun name hname => (hx name hname).imp_right (·.1)
    -- a chain of calls is no function literal, so the name that is being defined is of no use
    · have hfinds : ∀ name, (Expr.calls callee lists span).Free name →
          m.environment.Finds name := fun name hname => (hx name hname).resolve_right (·.2)
      refine safe_descend _ fun e he => ?_
      obtain ⟨hsafe, hbal⟩ := h e he
      refine safe_bind (hsafe.closed source fun name hname => hfinds name (.callee hname))
        (hbal.expr source callee) fun v m' hv hm' => ?_
      have hlists : Action.Safe Closed (e.lists source v callee.span lists) m' :=
        safe_lists hsafe hbal source callee.span hv fun list hlist y hy name hname =>
          hm'.symm ▸ hfinds name (.argument hlist hy hname)
      exact hlists.closedAs
  scope {own known m} source program hknown hfind := by
    refine safe_descend _ fun e he => safe_inside _ fun m' hm' => ?_
    refine safe_definitions (h e he).1 (h e he).2 source hfind fun name hname => ?_
    obtain ⟨v, hv, hclosed⟩ := hknown name hname
    refine ⟨v, ?_, hclosed⟩
    rw [hm', Environment.find?_push]
    exact hv
  call {m} site callee args hcallee hargs := by
    by_cases hf : ∃ f, callee = .function f
    · obtain ⟨f, rfl⟩ := hf
      show Action.Safe _ (callFunction _ site f args) m
      unfold callFunction
      split
      case isTrue haccepts =>
        rw [descend_map]
        refine safe_descend site fun e he => safe_inside site fun m' hm' => ?_
        refine (h e he).1.closed f.body.source fun name hname => ?_
        rw [hm']
        exact finds_call hcallee hargs haccepts m.environment hname
      case isFalse =>
        exact safe_throw ((Action.misuse_blameArity _ _ _).avoids (by decide))
    · exact safe_call_of_plan _ site (fun f hc => hf ⟨f, hc⟩) hcallee hargs

end Evaluator

/-- Evaluation is safe, however many levels are left. -/
theorem safe_evaluator (levels : Nat) : (evaluator levels : Evaluator ε).Safe := by
  induction levels with
  | zero => exact Evaluator.safe_step fun e he => nomatch he
  | succ levels ih =>
    exact Evaluator.safe_step fun e he => Option.some.inj he ▸ ⟨ih, balanced_evaluator levels⟩

/-! ### Programs -/

theorem safe_run {program : Scope} (hscoped : program.WellScoped) (source : Text) (host : ε) :
    Action.Safe Closed (Machine.run program source) (.initial host) := by
  have hscope : Action.Safe (ClosedAs none) ((evaluator levelLimit).scope source program)
      (.initial host) :=
    (safe_evaluator levelLimit).scope source program (fun _ h => h.elim) hscoped
  exact hscope.closed

theorem safe_apply {callee : Value Code} {args : List (Value Code)} (hcallee : Closed callee)
    (hargs : ∀ v ∈ args, Closed v) (m : Machine Code ε) :
    Action.Safe Closed (Machine.apply callee args) m :=
  (safe_evaluator (levelLimit - m.level)).call _ hcallee hargs

/-- What a host can make of a value: it takes items out of sequences, writes down
literals, and calls what it has with what it has, on any machine. -/
inductive Obtained (ε : Type) (v : Value Code) : Value Code → Prop
  | value : Obtained ε v v
  | number (n : Number) : Obtained ε v (.number n)
  | string (t : Text) : Obtained ε v (.string t)
  | color (c : Color) : Obtained ε v (.color c)
  | item {vs : List (Value Code)} {w : Value Code} (h : Obtained ε v (.sequence vs))
    (hw : w ∈ vs) : Obtained ε v w
  | call {callee w : Value Code} {args : List (Value Code)} {m m' : Machine Code ε}
    (hcallee : Obtained ε v callee) (hargs : ∀ a ∈ args, Obtained ε v a)
    (e : Machine.apply callee args m = .ok w m') : Obtained ε v w

theorem closed_of_obtained {v w : Value Code} (hv : Closed v) (h : Obtained ε v w) : Closed w := by
  induction h with
  | value => exact hv
  | number n => exact .number n
  | string t => exact .string t
  | color c => exact .color c
  | item _ hw ih => exact closed_sequence_iff.1 ih _ hw
  | call _ _ e ihcallee ihargs => exact (ends_of_ok e).1 (safe_apply ihcallee ihargs _)

theorem outcome_of_safe {P : α → Prop} {a : Action Code ε α} {m : Machine Code ε}
    (h : Action.Safe P a m) :
    (∀ v, a.outcome m = .ok v → P v) ∧
      ∀ f, a.outcome m = .error (.fault f) → f.kind ≠ .identifier := by
  rw [outcome]
  rcases e : a m with ⟨v, m'⟩ | ⟨s, m'⟩
  · have hv : P v := (ends_of_ok e).1 h
    refine ⟨?_, nofun⟩
    rintro _ ⟨⟩
    exact hv
  · have hs : s.Nameless := (ends_of_error e).1 h
    refine ⟨nofun, ?_⟩
    rintro f ⟨⟩
    exact hs f rfl

/-- **Well-scoped programs find all their names.**  No program that is well
scoped ends in a fault about a name on a new machine, and neither does a call, on
any machine, of anything that can be made of its value. -/
theorem well_scoped_programs_find_names (host : ε) {source : Text} {program : Scope}
    (hread : Scope.ofText source = .ok program) (hscoped : program.WellScoped) :
    (∀ f, (Machine.evaluate source).outcome (.initial host) = .error (.fault f) →
      f.kind ≠ .identifier) ∧
    ∀ v, (Machine.evaluate source).outcome (.initial host) = .ok v →
      ∀ (m : Machine Code ε) callee args, Obtained ε v callee → (∀ a ∈ args, Obtained ε v a) →
        ∀ f, (Machine.apply callee args).outcome m = .error (.fault f) → f.kind ≠ .identifier := by
  have hevaluate : (Machine.evaluate source : Action Code ε (Value Code))
      = Machine.run program source := by
    rw [Machine.evaluate, hread]
  obtain ⟨hclosed, hnameless⟩ := outcome_of_safe (safe_run hscoped source host)
  rw [hevaluate]
  refine ⟨hnameless, fun v hv m callee args hcallee hargs => ?_⟩
  have hv' := hclosed v hv
  exact (outcome_of_safe (safe_apply (closed_of_obtained hv' hcallee)
    (fun a ha => closed_of_obtained hv' (hargs a ha)) m)).2

/-- A function that mentions its own name is well scoped where it is defined, and
neither its definition nor a call of it ends in a fault about a name. -/
theorem well_scoped_programs_find_names_own :
    ∃ program v, Scope.ofText "def f () f\nf".toList = .ok program ∧ program.WellScoped ∧
      (Machine.evaluate "def f () f\nf".toList).outcome (.initial ()) = .ok v ∧
      ∀ (m : Machine Code Unit) f, (Machine.apply v []).outcome m = .error (.fault f) →
        f.kind ≠ .identifier := by
  have htokens : Text.tokens? "def f () f\nf".toList = .ok
      [⟨.define, "def".toList, 0, 1⟩, ⟨.identifier, "f".toList, 4, 1⟩,
        ⟨.openParen, "(".toList, 6, 1⟩, ⟨.closeParen, ")".toList, 7, 1⟩,
        ⟨.identifier, "f".toList, 9, 1⟩, ⟨.identifier, "f".toList, 11, 2⟩,
        ⟨.endOfInput, [], 12, 2⟩] := by
    decide +kernel
  have hread : Scope.ofText "def f () f\nf".toList = .ok
      ⟨[⟨"f".toList, ⟨4, 5⟩, ⟨[], .function [] (.atom (.name "f".toList) ⟨9, 10⟩) ⟨6, 10⟩, ⟨6, 10⟩⟩,
        ⟨0, 10⟩⟩], .atom (.name "f".toList) ⟨11, 12⟩, ⟨0, 12⟩⟩ := by
    rw [Scope.ofText, htokens]
    cbv
  have hscoped : Scope.WellScoped
      ⟨[⟨"f".toList, ⟨4, 5⟩, ⟨[], .function [] (.atom (.name "f".toList) ⟨9, 10⟩) ⟨6, 10⟩, ⟨6, 10⟩⟩,
        ⟨0, 10⟩⟩], .atom (.name "f".toList) ⟨11, 12⟩, ⟨0, 12⟩⟩ := by
    refine .definition (.result ?_) (.result ?_)
    · rintro name (- | ⟨-, ⟨⟩⟩)
      exact .inr ⟨rfl, trivial⟩
    · rintro name ⟨⟩
      exact .inl (.inr rfl)
  have hvalue : ∃ v, (Machine.evaluate "def f () f\nf".toList).outcome (.initial ()) = .ok v := by
    rw [Machine.evaluate, hread]
    exact ⟨_, rfl⟩
  obtain ⟨v, hv⟩ := hvalue
  refine ⟨_, v, hread, hscoped, hv, fun m => ?_⟩
  exact (well_scoped_programs_find_names () hread hscoped).2 v hv m v [] .value
    fun a ha => absurd ha List.not_mem_nil

end DrawLang
