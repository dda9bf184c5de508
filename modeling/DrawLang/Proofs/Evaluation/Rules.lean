/-
DrawLang/Proofs/Evaluation/Rules.lean

Rules for properties of actions.  What evaluation does is put together from a few actions
in a few ways.  If each of these actions has a property and each of these ways hands it on,
then all that evaluation does has it (`Action.Rules.evaluator`), by induction on the levels
that are left.  Inside frames of its own evaluation may do more, since the frames are removed
behind it; so what runs there only needs to have a second, weaker property.
-/
import DrawLang.Evaluation
import DrawLang.Proofs.Invocation.Plan

namespace DrawLang

variable {β ε : Type}

/-! ### Actions -/

namespace Action

/-- The rules for a property `P` of actions, and for a property `I` of those that run inside
frames. -/
structure Rules (P I : ∀ {α : Type}, Action β ε α → Prop) : Prop where
  inner {α : Type} {a : Action β ε α} : P a → I a
  pure {α : Type} (v : α) : P (pure v)
  /-- A name that is to be bound is bound already. -/
  taken (site : Site) (name : Text) :
    P (throw (site.blameArgument 0 .newName name) : Action β ε Unit)
  throw {α : Type} {s : Stop} : s.Misuse → P (throw s : Action β ε α)
  bind {α γ : Type} {a : Action β ε α} {f : α → Action β ε γ} :
    P a → (∀ v, P (f v)) → P (a >>= f)
  bind_inner {α γ : Type} {a : Action β ε α} {f : α → Action β ε γ} :
    I a → (∀ v, I (f v)) → I (a >>= f)
  get : P (get : Action β ε (Machine β ε))
  stamp : P (stamp : Action β ε Nat)
  checkpoint (site : Site) : P (checkpoint site : Action β ε Unit)
  known (site : Site) (name : Text) : P (known site name : Action β ε (Value β))
  insert (name : Text) (v : Value β) :
    I (modify fun m : Machine β ε => { m with environment := m.environment.insert name v })
  descend {δ : Type} (site : Site) {deeper : Option δ} {body : δ → Action β ε (Value β)} :
    (∀ d, deeper = some d → P (body d)) → P (descend site deeper body)
  inside (site : Site) {frames : List (Frame (Value β))} {body : Action β ε (Value β)} :
    frames ≠ [] → I body → P (inside site frames body)

variable {P I : ∀ {α : Type}, Action β ε α → Prop}

theorem Rules.checkpoints (rules : Rules P I) (site : Site) (count : Nat) :
    P (Action.checkpoints site count : Action β ε Unit) := by
  unfold Action.checkpoints
  split
  · exact rules.pure ()
  · exact rules.checkpoint site

theorem Rules.check {α : Type} (rules : Rules P I) {x : Except Stop α} (h : Misused x) :
    P (Action.check x : Action β ε α) := by
  rcases x with s | v
  · exact rules.throw (h s rfl)
  · exact rules.pure v

theorem Rules.settle {α : Type} (rules : Rules P I) (site : Site)
    {plan : Except Stop (Nat × Except Stop α)} (h : Misused (plan >>= Prod.snd)) :
    P (Action.settle site plan : Action β ε α) := by
  rcases plan with s | ⟨count, result⟩
  · exact rules.throw (h s rfl)
  · show P (Action.checkpoints site count >>= fun _ => Action.check result)
    exact rules.bind (rules.checkpoints site count) fun _ => rules.check h

theorem Rules.close (rules : Rules P I) (params : List Text) (body : β) (text : Text) :
    P (Action.close params body text : Action β ε (Value β)) :=
  rules.bind rules.stamp fun _ => rules.bind rules.get fun _ => rules.pure _

theorem Rules.named (rules : Rules P I) (name : Text) (v : Value β) :
    P (Action.named name v : Action β ε (Value β)) := by
  cases v with
  | function f =>
    rcases e : f.name with - | own
    · simp only [Action.named, e]
      exact rules.bind rules.stamp fun _ => rules.pure _
    · simp only [Action.named, e]
      exact rules.pure _
  | number | string | color | sequence | vector | shape | builtin => exact rules.pure _

theorem Rules.define (rules : Rules P I) (site : Site) (name : Text) (v : Value β) :
    I (Action.define site name v : Action β ε Unit) := by
  refine rules.bind_inner (rules.inner rules.get) fun m => ?_
  split
  · exact rules.inner (rules.taken site name)
  · exact rules.bind_inner (rules.inner (rules.named name v)) fun w => rules.insert name w

end Action

/-! ### Evaluators -/

open DrawLang.Action

/-- The parts of an evaluator have the property. -/
structure Evaluator.Keeps (P : ∀ {α : Type}, Action Code ε α → Prop) (e : Evaluator ε) : Prop where
  expr : ∀ source x, P (e.expr source x)
  scope : ∀ source s, P (e.scope source s)
  call : ∀ site callee args, P (e.call site callee args)

namespace Evaluator

variable {P I : ∀ {α : Type}, Action Code ε α → Prop} {e : Evaluator ε}

theorem Keeps.items (h : e.Keeps P) (rules : Rules P I) (source : Text) (xs : List Expr) :
    P (e.items source xs) := by
  induction xs with
  | nil => exact rules.pure []
  | cons x xs ih =>
    exact rules.bind (h.expr source x) fun _ => rules.bind ih fun _ => rules.pure _

theorem Keeps.lists (h : e.Keeps P) (rules : Rules P I) (source : Text) (span : Span)
    (lists : List (Arguments Expr)) (v : Value Code) : P (e.lists source v span lists) := by
  induction lists generalizing v span with
  | nil => exact rules.pure v
  | cons list more ih =>
    refine rules.bind (h.items rules source list.items) fun args => ?_
    exact rules.bind (h.call _ v args) fun w => ih (span.upTo list.span) w

theorem Keeps.definitions (h : e.Keeps P) (rules : Rules P I) (source : Text)
    (ds : List (Definition Scope)) : I (e.definitions source ds) := by
  induction ds with
  | nil => exact rules.inner (rules.pure ())
  | cons d ds ih =>
    refine rules.bind_inner (rules.inner (h.scope source d.body)) fun v => ?_
    exact rules.bind_inner (rules.define _ d.name v) fun _ => ih

theorem keeps_step (rules : Rules P I) {deeper : Option (Evaluator ε)}
    (h : ∀ e, deeper = some e → e.Keeps P) : (step deeper).Keeps P where
  expr source x := by
    rcases x with ⟨a, span⟩ | ⟨params, body, span⟩ | ⟨callee, lists, span⟩
    · cases a with
      | name id => exact rules.known _ id
      | number | string | color | builtin => exact rules.pure _
    · exact rules.close _ _ _
    · refine rules.descend _ fun e he => ?_
      refine rules.bind ((h e he).expr source callee) fun v => ?_
      exact (h e he).lists rules source callee.span lists v
  scope source s := by
    refine rules.descend _ fun e he => rules.inside _ (List.cons_ne_nil _ _) ?_
    refine rules.bind_inner ((h e he).definitions rules source s.definitions) fun _ => ?_
    exact rules.inner ((h e he).expr source s.result)
  call site callee args := by
    -- a call of anything but a function runs no code one level deeper
    by_cases hf : ∃ f, callee = .function f
    · obtain ⟨f, rfl⟩ := hf
      show P (callFunction _ site f args)
      unfold callFunction
      split
      · refine rules.descend _ fun run hrun => rules.inside _ (List.cons_ne_nil _ _) ?_
        obtain ⟨e, he, rfl⟩ := Option.map_eq_some_iff.1 hrun
        exact rules.inner ((h e he).expr f.body.source f.body.expr)
      · exact rules.throw (misuse_blameArity _ _ _)
    · show P (Action.call _ site callee args)
      rw [call_eq_settle _ _ _ _ fun f hc => hf ⟨f, hc⟩]
      exact rules.settle site (Value.misused_plan site args callee)

end Evaluator

/-- **All that evaluation does has a property that the rules hold for**, however many levels
are left. -/
theorem Action.Rules.evaluator {P I : ∀ {α : Type}, Action Code ε α → Prop} (rules : Rules P I)
    (levels : Nat) : (DrawLang.evaluator levels : Evaluator ε).Keeps P := by
  induction levels with
  | zero => exact Evaluator.keeps_step rules fun e he => nomatch he
  | succ levels ih => exact Evaluator.keeps_step rules fun e he => Option.some.inj he ▸ ih

end DrawLang
