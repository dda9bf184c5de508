/-
DrawLang/Proofs/Reference/Adequacy.lean

The machine evaluates by the big-step rules.  As long as no request to stop is
pending, the reference evaluator tells exactly what the rules do: they judge every
phrase in one way, and that is how the evaluator ends (`Action.Tells`).  This is
proved along the phrases, with one rule for each way of putting them together,
and by induction on the levels that are left.

The machine with its stack of frames follows the reference evaluator, so the
rules tell what it comes to as well, where names mean what the stack says,
innermost frame first.

Main statement: `evaluation_follows_the_rules`.
-/
import DrawLang.Proofs.Reference.BigStep
import DrawLang.Proofs.Reference.Closures

namespace DrawLang

open Judgment

variable {ε α γ δ : Type}

/-! ### Actions that tell what a judgment says -/

namespace Action

/-- On a machine without a pending request the action ends in the one way that
the judgment allows. -/
def Tells (a : Action Code ε α) (R : Judgment α) : Prop :=
  ∀ m, m.cancelled = false → a.Ends m fun r m' => m'.cancelled = false ∧
    ∀ r' k, R m.created r' k ↔ r' = r ∧ k = m'.created

theorem tells_check (x : Except Stop α) : Tells (check x : Action Code ε α) (plain x) := by
  intro m hm
  rcases x with s | v
  · exact ⟨hm, fun _ _ => Iff.rfl⟩
  · exact ⟨hm, fun _ _ => Iff.rfl⟩

theorem tells_bind {a : Action Code ε α} {f : α → Action Code ε γ} {R : Judgment α}
    {S : α → Judgment γ} (ha : Tells a R) (hf : ∀ v, Tells (f v) (S v)) :
    Tells (a >>= f) (chain R S) := by
  intro m hm
  refine ends_bind.2 ((ha m hm).mono ?_)
  rintro (s | v) m' ⟨hm', hR⟩
  -- the first part has stopped, and the judgment says nothing else of it
  · refine ⟨hm', fun r k => ⟨?_, ?_⟩⟩
    · rintro (⟨s', h, rfl⟩ | ⟨v, l, h, -⟩)
      · exact ⟨congrArg _ (Except.error.inj ((hR _ _).1 h).1), ((hR _ _).1 h).2⟩
      · cases ((hR _ _).1 h).1
    · rintro ⟨rfl, rfl⟩
      exact .inl ⟨s, (hR _ _).2 ⟨rfl, rfl⟩, rfl⟩
  · refine (hf v m' hm').mono fun r m'' ⟨hm'', hS⟩ => ⟨hm'', fun r' k => ⟨?_, ?_⟩⟩
    · rintro (⟨s, h, rfl⟩ | ⟨v', l, h, h'⟩)
      · cases ((hR _ _).1 h).1
      · obtain ⟨hv, rfl⟩ := (hR _ _).1 h
        obtain rfl := Except.ok.inj hv
        exact (hS _ _).1 h'
    · intro h
      exact .inr ⟨v, m'.created, (hR _ _).2 ⟨rfl, rfl⟩, (hS _ _).2 h⟩

/-- What is judged at the next level is told there. -/
theorem tells_descend {d : Nat} (site : Site) {deeper : Option δ} {body : δ → Action Code ε α}
    {R : Judgment α} (hnone : deeper = none → levelLimit ≤ d)
    (hsome : ∀ e, deeper = some e → d < levelLimit ∧ Tells (body e) R) :
    Tells (descend site deeper body) (Judgment.deeper d site R) := by
  intro m hm
  rcases deeper with - | e
  · have hd := hnone rfl
    refine ⟨hm, fun r k => ⟨?_, fun h => .inl ⟨hd, h⟩⟩⟩
    rintro (⟨-, h⟩ | ⟨hlt, -⟩)
    · exact h
    · exact absurd hlt (Nat.not_lt.2 hd)
  · obtain ⟨hd, hbody⟩ := hsome e rfl
    have hdeeper : ∀ r k, Judgment.deeper d site R m.created r k ↔ R m.created r k := by
      intro r k
      refine ⟨?_, fun h => .inr ⟨hd, h⟩⟩
      rintro (⟨hle, -⟩ | ⟨-, h⟩)
      · exact absurd hd (Nat.not_lt.2 hle)
      · exact h
    -- the counters of the machine have nothing to do with levels
    have hend := hbody { m with level := m.level + 1 } hm
    rcases h : body e { m with level := m.level + 1 } with ⟨v, m'⟩ | ⟨s, m'⟩
    · obtain ⟨hm', hR⟩ := (ends_of_ok h).1 hend
      exact (ends_of_ok (descend_of_ok h)).2 ⟨hm', fun r k => (hdeeper r k).trans (hR r k)⟩
    · obtain ⟨hm', hR⟩ := (ends_of_error h).1 hend
      exact (ends_of_error (descend_of_error h)).2 ⟨hm', fun r k => (hdeeper r k).trans (hR r k)⟩

/-- Without a pending request a checkpoint is passed. -/
theorem tells_behind_checkpoint {a : Action Code ε α} {R : Judgment α} (site : Site)
    (h : Tells a R) : Tells (checkpoint site >>= fun _ => a) R := by
  intro m hm
  unfold Ends
  rw [bind_of_ok (checkpoint_of_calm site hm)]
  exact h m hm

theorem tells_settle (site : Site) (plan : Except Stop (Nat × Except Stop α)) :
    Tells (settle site plan : Action Code ε α) (plain (plan >>= Prod.snd)) := by
  rcases plan with s | ⟨count, result⟩
  · exact tells_check (.error s)
  · show Tells (checkpoints site count >>= fun _ => check result) (plain result)
    unfold checkpoints
    split
    · exact tells_check result
    · exact tells_behind_checkpoint site (tells_check result)

theorem tells_define (own : Bindings) (site : Site) (name : Text) (v : Value Code) :
    Tells (Reference.define own site name v : Action Code ε Bindings)
      (Judgment.bind own site name v) := by
  intro m hm
  unfold Reference.define Judgment.bind
  rcases own.has name with - | -
  case true => exact tells_check (.error (site.blameArgument 0 .newName name)) m hm
  -- what is bound is the value as it is defined, and the stamp is taken from the machine
  · have hnamed : named name v m
        = .ok (v.defined name m.created).1 { m with created := (v.defined name m.created).2 } := by
      rcases v with - | - | - | - | - | - | f | -
      case function =>
        rcases e : f.name with - | own
        · simp only [named, Value.defined, e]
          rfl
        · simp only [named, Value.defined, e]
          rfl
      all_goals rfl
    show Ends (named name v >>= fun w => pure (own.insert name w)) m _
    exact ends_bind.2 ((ends_of_ok hnamed).2 ⟨hm, fun r k => Iff.rfl⟩)

end Action

open DrawLang.Action

/-! ### Evaluators that tell what the rules say -/

/-- Where `d` levels are active the parts of an evaluator tell what the rules say. -/
structure Evaluator.Tells (d : Nat) (e : Bindings → Evaluator ε) : Prop where
  expr : ∀ ρ source x, Action.Tells ((e ρ).expr source x) (Expr.Yields d ρ source x)
  scope : ∀ ρ source program,
    Action.Tells ((e ρ).scope source program) (Scope.Yields d ρ source program)
  call : ∀ ρ site callee args,
    Action.Tells ((e ρ).call site callee args) (Call.Yields d ρ site callee args)

namespace Evaluator

variable {d : Nat} {e : Bindings → Evaluator ε}

theorem tells_items (h : Evaluator.Tells d e) (ρ : Bindings) (source : Text) (xs : List Expr) :
    Action.Tells ((e ρ).items source xs) (Items.Yields d ρ source xs) := by
  induction xs with
  | nil =>
    rw [Items.yields_nil]
    exact tells_check (.ok [])
  | cons x xs ih =>
    rw [Items.yields_cons]
    refine tells_bind (h.expr ρ source x) fun v => ?_
    exact tells_bind ih fun vs => tells_check (.ok (v :: vs))

theorem tells_lists (h : Evaluator.Tells d e) (ρ : Bindings) (source : Text)
    (lists : List (Arguments Expr)) (v : Value Code) (span : Span) :
    Action.Tells ((e ρ).lists source v span lists) (Lists.Yields d ρ source v span lists) := by
  induction lists generalizing v span with
  | nil =>
    rw [Lists.yields_nil]
    exact tells_check (.ok v)
  | cons list more ih =>
    rw [Lists.yields_cons]
    refine tells_bind (tells_items h ρ source list.items) fun args => ?_
    exact tells_bind (h.call ρ (list.site source span) v args) fun w => ih w _

theorem tells_definitions (h : Evaluator.Tells d e) (ρ : Bindings) (source : Text)
    (ds : List (Definition Scope)) (own : Bindings) :
    Action.Tells (Reference.definitions e source ρ own ds)
      (Definitions.Yields d ρ own source ds) := by
  induction ds generalizing own with
  | nil =>
    rw [Definitions.yields_nil]
    exact tells_check (.ok own)
  | cons first more ih =>
    rw [Definitions.yields_cons]
    refine tells_bind (h.scope (own ++ ρ) source first.body) fun v => ?_
    exact tells_bind (tells_define own (first.site source) first.name v) fun own => ih own

theorem tells_atom (ρ : Bindings) (source : Text) (span : Span) (a : Atom) :
    Action.Tells (Reference.atom ρ source span a : Action Code ε (Value Code))
      (plain (a.meaning ρ source span)) := by
  rcases a with n | t | c | b | id
  case name =>
    show Action.Tells (Reference.known ρ _ id) _
    simp only [Reference.known, Atom.meaning]
    rcases ρ.find? id with - | v
    · exact tells_check (.error _)
    · exact tells_check (.ok v)
  all_goals exact tells_check (.ok _)

theorem tells_step {deeper : Option (Bindings → Evaluator ε)}
    (hnone : deeper = none → levelLimit ≤ d)
    (hsome : ∀ e, deeper = some e → d < levelLimit ∧ Evaluator.Tells (d + 1) e) :
    Evaluator.Tells d (Reference.step .dynamic deeper) where
  expr ρ source x := by
    rcases x with ⟨a, span⟩ | ⟨params, body, span⟩ | ⟨callee, lists, span⟩
    · rw [Expr.yields_atom]
      exact tells_atom ρ source span a
    · exact fun m hm => ⟨hm, fun r k => Expr.yields_function⟩
    · rw [Expr.yields_calls]
      refine tells_descend _ hnone fun e he => ⟨(hsome e he).1, ?_⟩
      have hdeeper := (hsome e he).2
      refine tells_bind (hdeeper.expr ρ source callee) fun v => ?_
      exact tells_lists hdeeper ρ source lists v callee.span
  scope ρ source program := by
    rw [Scope.yields]
    refine tells_descend _ hnone fun e he => ⟨(hsome e he).1, tells_behind_checkpoint _ ?_⟩
    have hdeeper := (hsome e he).2
    refine tells_bind (tells_definitions hdeeper ρ source program.definitions []) fun own => ?_
    exact hdeeper.expr (own ++ ρ) source program.result
  call ρ site callee args := by
    by_cases hf : ∃ f, callee = .function f
    · obtain ⟨f, rfl⟩ := hf
      show Action.Tells (if f.arity.accepts args.length then _ else _) _
      rcases h : f.arity.accepts args.length with - | -
      · rw [Call.yields_arity h]
        exact tells_check (.error _)
      · rw [Call.yields_body h]
        refine tells_descend site hnone fun e he =>
          ⟨(hsome e he).1, tells_behind_checkpoint site ?_⟩
        exact (hsome e he).2.expr _ f.body.source f.body.expr
    · have hplain : ∀ f, callee ≠ .function f := fun f hc => hf ⟨f, hc⟩
      rw [Call.yields_plan hplain, Reference.step_call_of_plain _ _ _ _ _ hplain,
        call_eq_settle _ _ _ _ hplain]
      exact tells_settle site (callee.plan site args)

end Evaluator

/-- **The reference evaluator tells what the rules say**, with the levels that
are left where `d` are active. -/
theorem tells_evaluator (levels d : Nat) (h : levelLimit - d = levels) :
    Evaluator.Tells d (Reference.evaluator .dynamic levels : Bindings → Evaluator ε) := by
  induction levels generalizing d with
  | zero => exact Evaluator.tells_step (fun _ => Nat.le_of_sub_eq_zero h) nofun
  | succ levels ih =>
    refine Evaluator.tells_step nofun fun e he => ?_
    obtain rfl := Option.some.inj he
    exact ⟨by omega, ih (d + 1) (by omega)⟩

/-! ### The machine -/

/-- On the machine the action comes to what the judgment allows, and it allows
nothing else; values may keep their bindings in other frames. -/
def Judgment.Tallies (R : Judgment (Value Code)) (a : Action Code ε (Value Code))
    (m : Machine Code ε) : Prop :=
  ∃ r k, (∀ r' k', R m.created r' k' ↔ r' = r ∧ k' = k) ∧ Tally (Matches .dynamic) r (a.outcome m)

theorem tallies_of_tells {R : Judgment (Value Code)} {a a' : Action Code ε (Value Code)}
    {m : Machine Code ε} (hm : m.cancelled = false) (ha : Tells a R)
    (h : Simulates .dynamic m.environment a a') : R.Tallies a' m := by
  have htally := tally_of_agree (h m m ⟨rfl, rfl, rfl⟩) fun _ _ hX => hX
  rcases e : a m with ⟨v, m'⟩ | ⟨s, m'⟩
  · refine ⟨.ok v, m'.created, ((ends_of_ok e).1 (ha m hm)).2, ?_⟩
    rwa [outcome, e] at htally
  · refine ⟨.error s, m'.created, ((ends_of_error e).1 (ha m hm)).2, ?_⟩
    rwa [outcome, e] at htally

/-- **Evaluation follows the big-step rules.**  On a machine with any
environment, at any level and without a pending request, every expression, scope
and call comes to the one outcome that the rules allow where names mean what the
stack of frames says: to the same value, its bindings kept in other frames, or
to the same stop. -/
theorem evaluation_follows_the_rules (m : Machine Code ε) (hm : m.cancelled = false) :
    (∀ source x, (Expr.Yields m.level m.environment.frames.flatten source x).Tallies
      (m.evaluator.expr source x) m) ∧
    (∀ source program, (Scope.Yields m.level m.environment.frames.flatten source program).Tallies
      (m.evaluator.scope source program) m) ∧
    (∀ site callee args,
      (Call.Yields m.level m.environment.frames.flatten site callee args).Tallies
        (m.evaluator.call site callee args) m) := by
  have htells := tells_evaluator (ε := ε) (levelLimit - m.level) m.level rfl
  have hfollows := follows_evaluator (ε := ε) .dynamic (levelLimit - m.level)
  have hnames : ∀ name, Follows .dynamic (Frame.find? m.environment.frames.flatten name)
      (m.environment.find? name) := by
    intro name
    rw [Environment.find?_eq_flatten]
    exact follows_refl _
  refine ⟨fun source x => ?_, fun source program => ?_, fun site callee args => ?_⟩
  · exact tallies_of_tells hm (htells.expr _ source x)
      (hfollows.expr source fun name _ => hnames name)
  · exact tallies_of_tells hm (htells.scope _ source program)
      (hfollows.scope source program hnames)
  · exact tallies_of_tells hm (htells.call _ site callee args)
      (hfollows.call site callee callee args args (fun _ => hnames) (matches_refl callee)
        (forall₂_matches_refl args))

/-- A function that mentions a name which is defined behind it comes to what the
name means where it is called, unless it kept a meaning for it; the rules allow
nothing else, since the machine comes to that. -/
theorem evaluation_follows_the_rules_late :
    (∃ k, ∀ r' k', Scope.Yields 0 [] lateSource lateProgram 0 r' k'
      ↔ r' = .ok (.string "late".toList) ∧ k' = k) ∧
    ∃ k, ∀ r' k', Scope.Yields 0 [("y".toList, .string "other".toList)] lateSource lateProgram 0
      r' k' ↔ r' = .ok (.string "other".toList) ∧ k' = k := by
  constructor
  · obtain ⟨r, k, hR, htally⟩ :=
      (evaluation_follows_the_rules (Machine.initial ()) rfl).2.1 lateSource lateProgram
    have hrun : ((Machine.initial ()).evaluator.scope lateSource lateProgram).outcome
        (Machine.initial ()) = .ok (.string "late".toList) := by cbv
    rw [hrun] at htally
    rcases htally with ⟨⟨⟩⟩
    exact ⟨k, hR⟩
  · obtain ⟨r, k, hR, htally⟩ :=
      (evaluation_follows_the_rules crowded rfl).2.1 lateSource lateProgram
    have hrun : (crowded.evaluator.scope lateSource lateProgram).outcome crowded
        = .ok (.string "other".toList) := by cbv
    rw [hrun] at htally
    rcases htally with ⟨⟨⟩⟩
    exact ⟨k, hR⟩

end DrawLang
