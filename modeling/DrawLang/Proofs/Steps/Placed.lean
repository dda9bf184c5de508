/-
DrawLang/Proofs/Steps/Placed.lean

Where things are, moment by moment.  Everything that a moment holds is placed:
what is to be done, what is pending, what is bound, and the value or the stop
that something has ended with.  Steps lead from such a moment to such a moment
(`Moment.placed_of_steps`), as evaluation upholds it, so an evaluation that starts with
what is placed only ever stops at good places.
-/
import DrawLang.Proofs.Steps.Upheld

namespace DrawLang

open DrawLang.Action

variable {ε : Type} (P : Text → Nat → Prop)

/-! ### Placed moments -/

/-- The items of the argument lists are placed in the text. -/
def ListsPlaced (source : Text) (lists : List (Arguments Expr)) : Prop :=
  ∀ list ∈ lists, ∀ x ∈ list.items, x.Placed P source

/-- The definition, its name and its body are placed in the text. -/
structure Definition.Placed (source : Text) (d : Definition Scope) : Prop where
  start : P source d.span.start
  name : P source d.nameSpan.start
  body : d.body.Placed P source

/-- What is to be done is placed. -/
def Task.Placed : Task → Prop
  | .expr source x => x.Placed P source
  | .scope source program => program.Placed P source
  | .call site callee args => site.Placed P ∧ callee.Placed P ∧ ∀ v ∈ args, v.Placed P
  | .chain source callee ls => callee.Placed P source ∧ ListsPlaced P source ls
  | .lists source callee span ls =>
    callee.Placed P ∧ P source span.start ∧ ListsPlaced P source ls
  | .arguments source callee span list args todo more =>
    callee.Placed P ∧ P source span.start ∧ ListsPlaced P source (list :: more) ∧
      (∀ v ∈ args, v.Placed P) ∧ ∀ x ∈ todo, x.Placed P source
  | .definitions source ds result => (∀ d ∈ ds, d.Placed P source) ∧ result.Placed P source
  | .inside site frame frames body =>
    site.Placed P ∧ (∀ f ∈ frame :: frames, Frame.Placed P f) ∧ body.Placed

/-- What is pending is placed. -/
def Pending.Placed : Pending → Prop
  | .lists source span ls => P source span.start ∧ ListsPlaced P source ls
  | .argument source callee span list args todo more =>
    (Task.arguments source callee span list args todo more).Placed P
  | .definition source first ds result =>
    (∀ d ∈ first :: ds, d.Placed P source) ∧ result.Placed P source
  | .frames _ | .level => True

/-- What is to be done is placed, and so is what something has ended with. -/
def Focus.Placed : Focus → Prop
  | .task t => t.Placed P
  | .ended r => Fits (Value.Placed P) (Stop.Aimed P) r

/-- All that there is at a moment is placed. -/
structure Moment.Placed (c : Moment ε) : Prop where
  focus : c.focus.Placed P
  pending : ∀ p ∈ c.pending, p.Placed P
  environment : c.machine.environment.Placed P

variable {P}

/-! ### Steps between placed moments -/

/-- The part of a program is placed in the text. -/
def Node.Placed (P : Text → Nat → Prop) (source : Text) : Node → Prop
  | scope s => s.Placed P source
  | expr x => x.Placed P source

theorem Node.Placed.child {source : Text} {n n' : Node} (h : n.Placed P source)
    (hchild : n.Child n') : n'.Placed P source := by
  cases hchild with
  | definition hd =>
    obtain ⟨-, -, -, hbodies, -⟩ := h
    exact hbodies _ hd
  | result =>
    obtain ⟨-, -, -, -, hresult⟩ := h
    exact hresult
  | function =>
    cases h with
    | function _ hbody => exact hbody
  | callee =>
    cases h with
    | calls _ hcallee => exact hcallee
  | argument _ _ hlist hx =>
    cases h with
    | calls _ _ hlists => exact hlists _ hlist _ hx

/-- Evaluation keeps things placed. -/
theorem upkeep_placed : Upkeep P (Value.Placed P) (Node.Placed P) where
  start {source n} h := by
    cases n with
    | scope s =>
      obtain ⟨hstart, -⟩ := h
      exact hstart
    | expr x => exact Expr.Placed.start h
  definition h d hd := by
    obtain ⟨-, hstarts, hnames, -, -⟩ := h
    exact ⟨hstarts d hd, hnames d hd⟩
  child h hchild := h.child hchild
  plain := Value.inherited_placed.plain
  literal h _ frames hframes := by
    cases h with
    | function _ hbody => exact Value.placed_function_iff.2 ⟨hbody, hframes⟩
  rename h _ _ := by
    have hkept := Value.placed_function_iff.1 h
    exact Value.placed_function_iff.2 hkept
  body h := (Value.placed_function_iff.1 h).1
  kept h := (Value.placed_function_iff.1 h).2
  plan hcallee hargs site _ _ := Value.inherited_placed.plan hcallee hargs site

theorem Definition.upheld_iff {source : Text} {d : Definition Scope} :
    Definition.Upheld P (Node.Placed P) source d ↔ d.Placed P source :=
  ⟨fun h => ⟨h.start, h.name, h.body⟩, fun h => ⟨h.start, h.name, h.body⟩⟩

theorem Task.upheld_iff {t : Task} :
    t.Upheld P (Value.Placed P) (Node.Placed P) ↔ t.Placed P := by
  induction t with
  | expr | scope | call | chain | lists | arguments => exact Iff.rfl
  | definitions source ds result =>
    exact and_congr_left fun _ => forall₂_congr fun _ _ => Definition.upheld_iff
  | inside site frame frames body ih =>
    exact and_congr_right fun _ => and_congr_right fun _ => ih

theorem Pending.upheld_iff {p : Pending} :
    p.Upheld P (Value.Placed P) (Node.Placed P) ↔ p.Placed P := by
  cases p with
  | lists | frames | level => exact Iff.rfl
  | argument => exact Task.upheld_iff
  | definition => exact and_congr_left fun _ => forall₂_congr fun _ _ => Definition.upheld_iff

theorem Moment.upheld_iff {c : Moment ε} :
    c.Upheld P (Value.Placed P) (Node.Placed P) ↔ c.Placed P := by
  have hfocus : c.focus.Upheld P (Value.Placed P) (Node.Placed P) ↔ c.focus.Placed P := by
    cases c.focus with
    | task => exact Task.upheld_iff
    | ended => exact Iff.rfl
  have hpending : (∀ p ∈ c.pending, p.Upheld P (Value.Placed P) (Node.Placed P)) ↔
      ∀ p ∈ c.pending, p.Placed P := forall₂_congr fun _ _ => Pending.upheld_iff
  exact ⟨fun h => ⟨hfocus.1 h.focus, hpending.1 h.pending, h.environment⟩,
    fun h => ⟨hfocus.2 h.focus, hpending.2 h.pending, h.environment⟩⟩

/-- **Steps lead from what is placed to what is placed.** -/
theorem Moment.placed_of_steps {c c' : Moment ε} (h : Steps c c') (hc : c.Placed P) : c'.Placed P :=
  upheld_iff.1 (upheld_of_steps upkeep_placed h (upheld_iff.2 hc))

end DrawLang
