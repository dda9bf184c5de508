/-
DrawLang/Proofs/Reference/Simulation.lean

The machine follows the reference semantics.  On the left the reference
semantics runs under some bindings, on the right the machine runs in an
environment where the names follow those bindings; they come to matching values
or to the same stop.

With lexical scoping the left side may stop at a name that means nothing there,
and that excuses the right side, where the name may be bound further down the
stack.  With dynamic scoping nothing is excused.

Main statement: `follows_evaluator`, by induction on the levels that are left.
-/
import DrawLang.Proofs.Evaluation.Agreement
import DrawLang.Proofs.Evaluation.Balance
import DrawLang.Proofs.Reference.Matching

namespace DrawLang

open DrawLang.Action

variable {ε : Type} {s : Scoping}

/-- The stop blames a name that means nothing. -/
def Stop.Unbound (stop : Stop) : Prop :=
  ∃ (site : Site) (name : Text), stop = site.blameArgument 0 .boundName name

/-- The stops of the reference semantics that the machine need not follow. -/
def Scoping.Excuses (s : Scoping) (stop : Stop) : Prop :=
  match s with
  | lexical => stop.Unbound
  | dynamic => False

/-- The machine on the right is in this environment. -/
def Environment.At (e : Environment (Value Code)) (_ e' : Environment (Value Code)) : Prop := e' = e

/-- The machine on the right has this beneath its innermost frame. -/
def Environment.Above (e : Environment (Value Code)) (_ e' : Environment (Value Code)) : Prop :=
  e'.beneath = e.beneath

open Environment

/-- Two actions agree in an environment of the right machine, and leave it there. -/
abbrev Simulates (s : Scoping) (e : Environment (Value Code)) (a a' : Action Code ε (Value Code)) :
    Prop :=
  Mirrors (At e) 0 s.Excuses (Matches s) a a'

/-- What is beneath the innermost frame does not depend on it. -/
theorem akin_above {e : Environment (Value Code)} {fs : List Bindings} (f g : Bindings)
    {m m' : Machine Code ε} (h : Akin (At (e.push (f :: fs))) 0 m m') :
    Akin (Above (e.push (g :: fs))) 0 m m' :=
  ⟨(congrArg Environment.beneath h.environment).trans rfl, h.cancelled, h.created⟩

/-! ### Names, definitions and frames -/

theorem simulates_known {ρ : Bindings} {e : Environment (Value Code)} {name : Text}
    (h : Follows s (ρ.find? name) (e.find? name)) (site : Site) :
    Simulates s e (Reference.known ρ site name : Action Code ε (Value Code)) (known site name) := by
  intro m m' hm
  have henv : m'.environment = e := hm.environment
  rw [Reference.known]
  rcases hfind : ρ.find? name with - | v <;> rw [hfind] at h
  · rcases s with - | -
    -- with lexical scoping the machine may find the name in the frames of a caller
    · exact .excused ⟨site, name, rfl⟩
    · rw [known_of_free (henv ▸ h rfl)]
      exact agree_error _ hm
  · obtain ⟨v', hv', hv⟩ := h
    rw [known_of_bound (henv ▸ hv')]
    exact .ok ⟨hv, hm⟩

theorem simulates_named {e : Environment (Value Code)} {v v' : Value Code} (hv : Matches s v v')
    (name : Text) :
    Simulates s e (named name v : Action Code ε (Value Code)) (named name v') := by
  cases s.likeness.alike hv with
  | @function f f' hf =>
    -- matching functions both have a name or both have none, so both or neither take it
    rcases e : f.name with - | own
    · have e' : f'.name = none := by
        rw [← Option.isNone_iff_eq_none, ← Option.not_isSome, hf.named, e]
        rfl
      simp only [named, e, e']
      refine mirrors_bind mirrors_stamp ?_
      rintro stamp _ rfl
      refine mirrors_pure (matches_function_iff.2 ?_)
      exact ⟨rfl, hf.params, hf.body, hf.text, rfl, fun _ _ => Iff.rfl, hf.kept⟩
    · obtain ⟨own', e'⟩ := Option.isSome_iff_exists.1 (hf.named.trans (e ▸ rfl))
      simp only [named, e, e']
      exact mirrors_pure (matches_function_iff.2 hf)
  | sequence h => exact mirrors_pure (.sequence h)
  | number | string | color | vector | shape | builtin => exact mirrors_pure (by constructor)

/-- Binding a name in a scope that is told by `own` on the left, and is the
innermost frame on the right. -/
theorem agree_define {e : Environment (Value Code)} {own frame : Bindings}
    (h : ∀ x, Option.Rel (Matches s) (own.find? x) (frame.find? x)) (site : Site) (name : Text)
    {v v' : Value Code} (hv : Matches s v v') {m m' : Machine Code ε}
    (hm : Akin (At (e.push [frame])) 0 m m') :
    Agree (Akin (At (e.push [frame])) 0) s.Excuses
      (fun own' (_ : Unit) n n' => ∃ frame',
        (∀ x, Option.Rel (Matches s) (own'.find? x) (Frame.find? frame' x)) ∧
          Akin (At (e.push [frame'])) 0 n n')
      (Reference.define own site name v m) (define site name v' m') := by
  have henv : m'.environment = e.push [frame] := hm.environment
  have hlocal : m'.environment.hasLocal name = own.has name := by
    rw [henv]
    have hrel := h name
    show (frame.find? name).isSome = (own.find? name).isSome
    generalize own.find? name = o, frame.find? name = o' at hrel ⊢
    cases hrel <;> rfl
  unfold Reference.define
  rcases hown : own.has name with - | - <;> rw [hown] at hlocal
  · rw [define_of_new v' hlocal, if_neg Bool.false_ne_true]
    refine agree_bind (simulates_named hv name m m' hm) ?_
    rintro w w' n n' ⟨hw, hn⟩
    have henv' : n'.environment = e.push [frame] := hn.environment
    refine .ok ⟨frame.insert name w', fun x => ?_, ?_, hn.cancelled, hn.created⟩
    · rw [Frame.find?_insert, Frame.find?_insert]
      split
      · exact .some hw
      · exact h x
    · show n'.environment.insert name w' = _
      rw [henv']
      rfl
  · rw [define_of_bound v' hlocal, if_pos rfl]
    exact agree_error _ hm

/-- A body that runs under bindings on the left and inside frames on the right. -/
theorem simulates_inside (site : Site) {e : Environment (Value Code)} {frame : Bindings}
    {fs : List Bindings} {a a' : Action Code ε (Value Code)}
    (h : ∀ m m', Akin (At (e.push (frame :: fs))) 0 m m' →
      Agree (Akin (Above (e.push (frame :: fs))) 0) s.Excuses
        (fun v v' n n' => Matches s v v' ∧ Akin (Above (e.push (frame :: fs))) 0 n n') (a m)
        (a' m')) :
    Simulates s e (checkpoint site >>= fun _ => a) (inside site (frame :: fs) a') := by
  intro m m' hm
  have henv : m'.environment = e := hm.environment
  have hpush : Akin (At (e.push (frame :: fs))) 0 m
      { m' with environment := m'.environment.push (frame :: fs) } :=
    ⟨by rw [At, henv], hm.cancelled, hm.created⟩
  have hbody : Agree (Akin (Above (e.push (frame :: fs))) 0) s.Excuses
      (fun v v' n n' => Matches s v v' ∧ Akin (Above (e.push (frame :: fs))) 0 n n')
      ((checkpoint site >>= fun _ => a) m)
      ((checkpoint site >>= fun _ => a')
        { m' with environment := m'.environment.push (frame :: fs) }) :=
    agree_bind ((mirrors_checkpoint site m _ hpush).mono_fault fun _ _ => akin_above frame frame)
      fun _ _ n n' hn => h n n' hn.2
  unfold inside
  generalize (checkpoint site >>= fun _ => a) m = r,
    (checkpoint site >>= fun _ => a') _ = r' at hbody ⊢
  cases hbody with
  | @ok v v' n n' h =>
    have hpop : n'.environment.pop? (frame :: fs).length = some e :=
      pop?_of_beneath (List.cons_ne_nil _ _) h.2.environment
    show Agree _ _ _ _ ((remove (frame :: fs).length >>= fun _ => pure v') n')
    rw [bind_of_ok (remove_of_pop hpop)]
    exact .ok ⟨h.1, rfl, h.2.cancelled, h.2.created⟩
  | @fault f n n' h =>
    have hpop : n'.environment.pop? (frame :: fs).length = some e :=
      pop?_of_beneath (List.cons_ne_nil _ _) h.environment
    show Agree _ _ _ _ ((remove (frame :: fs).length >>= fun _ => throw (.fault f)) n')
    rw [bind_of_ok (remove_of_pop hpop)]
    exact .fault ⟨rfl, h.cancelled, h.created⟩
  | crash c n n' => exact .crash c n n'
  | excused h => exact .excused h

/-! ### Evaluators -/

/-- An evaluator of the machine comes to the same as one of the reference semantics. -/
structure Evaluator.Follows (s : Scoping) (r : Bindings → Evaluator ε) (e : Evaluator ε) :
    Prop where
  expr : ∀ {ρ : Bindings} {env : Environment (Value Code)} {x : Expr} (source : Text),
    (∀ name, s.Needs x.Free name → DrawLang.Follows s (ρ.find? name) (env.find? name)) →
      Simulates s env ((r ρ).expr source x) (e.expr source x)
  scope : ∀ {ρ : Bindings} {env : Environment (Value Code)} (source : Text) (program : Scope),
    (∀ name, DrawLang.Follows s (ρ.find? name) (env.find? name)) →
      Simulates s env ((r ρ).scope source program) (e.scope source program)
  call : ∀ {ρ : Bindings} {env : Environment (Value Code)} (site : Site)
    (callee callee' : Value Code) (args args' : List (Value Code)),
    (s = .dynamic → ∀ name, DrawLang.Follows s (ρ.find? name) (env.find? name)) →
      Matches s callee callee' → List.Forall₂ (Matches s) args args' →
        Simulates s env ((r ρ).call site callee args) (e.call site callee' args')

namespace Evaluator

variable {r : Bindings → Evaluator ε} {e : Evaluator ε}

theorem agree_definitions (h : e.Follows s r) (source : Text) {ρ : Bindings}
    {env : Environment (Value Code)}
    (hρ : ∀ name, DrawLang.Follows s (ρ.find? name) (env.find? name))
    (ds : List (Definition Scope)) {own frame : Bindings}
    (hown : ∀ x, Option.Rel (Matches s) (own.find? x) (frame.find? x)) {m m' : Machine Code ε}
    (hm : Akin (At (env.push [frame])) 0 m m') :
    Agree (Akin (Above (env.push [[]])) 0) s.Excuses
      (fun own' (_ : Unit) n n' => ∃ frame',
        (∀ x, Option.Rel (Matches s) (own'.find? x) (Frame.find? frame' x)) ∧
          Akin (At (env.push [frame'])) 0 n n')
      (Reference.definitions r source ρ own ds m) (e.definitions source ds m') := by
  induction ds generalizing own frame m m' with
  | nil => exact .ok ⟨frame, hown, hm⟩
  | cons d ds ih =>
    have hbody : Simulates s (env.push [frame]) ((r (own ++ ρ)).scope source d.body)
        (e.scope source d.body) := h.scope source d.body fun name => by
      rw [Environment.find?_push, Frame.find?_append, List.flatten_singleton]
      exact follows_or (hown name) (hρ name)
    -- a fault may come with any innermost frame, so no frame is fixed for it
    refine agree_bind ((hbody m m' hm).mono_fault fun _ _ => akin_above frame []) ?_
    rintro v v' n n' ⟨hv, hn⟩
    refine agree_bind
      ((agree_define hown _ d.name hv hn).mono_fault fun _ _ => akin_above frame []) ?_
    rintro own' _ p p' ⟨frame', hown', hp⟩
    exact ih hown' hp

theorem simulates_atom {ρ : Bindings} {env : Environment (Value Code)} (source : Text) (a : Atom)
    (span : Span)
    (h : ∀ name, s.Needs (Expr.atom a span).Free name →
      DrawLang.Follows s (ρ.find? name) (env.find? name)) :
    Simulates s env (Reference.atom ρ source span a : Action Code ε (Value Code))
      (a.value source span) := by
  rcases a with n | t | c | b | id
  case name =>
    have hneeds : s.Needs (Expr.atom (.name id) span).Free id := by
      rcases s with - | -
      · exact .name span
      · exact trivial
    exact simulates_known (h id hneeds) _
  all_goals exact mirrors_pure (by constructor)

/-- A function literal keeps bindings on the left and all frames on the right. -/
theorem simulates_close {ρ : Bindings} {env : Environment (Value Code)} (params : List Param)
    (code : Code) {span : Span}
    (h : ∀ name, s.Needs (Expr.function params code.expr span).Free name →
      DrawLang.Follows s (ρ.find? name) (env.find? name)) :
    Simulates s env
      (do
        let stamp ← stamp
        return .function
          { stamp, name := none, params := params.map Param.name, closure := [ρ], body := code,
            text := code.literalText params } : Action Code ε (Value Code))
      (close (params.map Param.name) code (code.literalText params)) := by
  refine mirrors_bind mirrors_stamp ?_
  rintro n _ rfl m m' hm
  have henv : m'.environment = env := hm.environment
  refine .ok ⟨matches_function_iff.2 ⟨rfl, rfl, rfl, rfl, rfl, fun _ _ => Iff.rfl, ?_⟩, hm⟩
  intro x hx
  have hfree : s.Needs (Expr.function params code.expr span).Free x :=
    hx.mono fun hopen => .body hopen.1 hopen.2
  show DrawLang.Follows s (Frame.find? [ρ].flatten x) (Frame.find? m'.environment.frames.flatten x)
  rw [List.flatten_singleton, henv, ← Environment.find?_eq_flatten]
  exact h x hfree

theorem follows_step {deeper : Option (Bindings → Evaluator ε)} {deeper' : Option (Evaluator ε)}
    (h : Option.Rel (fun r e => Evaluator.Follows s r e) deeper deeper') :
    (step deeper').Follows s (Reference.step s deeper) where
  expr {ρ env x} source hx := by
    rcases x with ⟨a, span⟩ | ⟨params, body, span⟩ | ⟨callee, lists, span⟩
    · exact simulates_atom source a span hx
    · exact simulates_close params ⟨body, source⟩ hx
    · refine mirrors_descend _ h fun r e he => ?_
      have hcallee : ∀ name, s.Needs callee.Free name →
          DrawLang.Follows s (ρ.find? name) (env.find? name) := fun name hname =>
        hx name (hname.mono .callee)
      refine mirrors_bind (he.expr source hcallee) fun v v' hv => ?_
      refine mirrors_lists (L := s.likeness) (fun list hlist y hy => ?_) ?_ callee.span hv
      · exact he.expr source fun name hname => hx name (hname.mono (.argument hlist hy))
      -- where a call looks around itself, all names are needed in the whole chain
      · refine fun site f f' args args' => he.call site f f' args args' ?_
        rintro rfl name
        exact hx name trivial
  scope {ρ env} source program hρ := by
    refine mirrors_descend _ h fun r e he => simulates_inside _ ?_
    intro m m' hm
    refine agree_bind (agree_definitions he source hρ program.definitions (fun _ => .none) hm) ?_
    rintro own _ n n' ⟨frame, hown, hn⟩
    have hresult : Simulates s (env.push [frame]) ((r (own ++ ρ)).expr source program.result)
        (e.expr source program.result) := he.expr source fun name _ => by
      rw [Environment.find?_push, Frame.find?_append, List.flatten_singleton]
      exact follows_or (hown name) (hρ name)
    exact (hresult n n' hn).mono (fun _ _ => akin_above frame []) fun v v' p p' hp =>
      ⟨hp.1, akin_above frame [] hp.2⟩
  call {ρ env} site callee callee' args args' hsite hcallee hargs := by
    by_cases hfun : ∃ f, callee = .function f
    · obtain ⟨f, rfl⟩ := hfun
      obtain ⟨f', rfl⟩ : ∃ f', callee' = .function f' := by
        cases hcallee
        exact ⟨_, rfl⟩
      have hf : Function.Matches s f f' := matches_function_iff.1 hcallee
      have harity : f'.arity.accepts args'.length = f.arity.accepts args.length := by
        rw [Function.arity, Function.arity, hf.params, hargs.length_eq]
      show Mirrors _ _ _ _ (if f.arity.accepts args.length then _ else _)
        (callFunction _ site f' args')
      unfold callFunction
      rw [harity, descend_map, hf.body]
      split
      case isTrue haccepts =>
        refine mirrors_descend site h fun r e he => simulates_inside site fun m m' hm => ?_
        have hbody := he.expr f.body.source fun name hname =>
          follows_bindings hf hargs haccepts hsite hname
        exact (hbody m m' hm).mono (fun _ _ => akin_above _ _) fun v v' p p' hp =>
          ⟨hp.1, akin_above _ _ hp.2⟩
      case isFalse =>
        rw [show Action.blameArity site f'.arity args'.length
          = Action.blameArity site f.arity args.length by
            rw [Function.arity, Function.arity, hf.params, hargs.length_eq]]
        exact mirrors_throw _
    · have hplain : ∀ f, callee ≠ .function f := fun f hf => hfun ⟨f, hf⟩
      rw [Reference.step_call_of_plain s deeper ρ site args hplain]
      exact mirrors_call_of_plan s.likeness none _ site hplain hcallee hargs

end Evaluator

/-- **The machine follows the reference semantics**, with either scoping and
however many levels are left. -/
theorem follows_evaluator (s : Scoping) (levels : Nat) :
    (evaluator levels : Evaluator ε).Follows s (Reference.evaluator s levels) := by
  induction levels with
  | zero => exact Evaluator.follows_step .none
  | succ levels ih => exact Evaluator.follows_step (.some ih)

end DrawLang
