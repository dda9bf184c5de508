/-
DrawLang/Proofs/Evaluation/Later.lean

Evaluation on a later machine.  Take two machines that differ in the functions
made so far only: the second one has made `k` more, and in its environment every
value is what it is `k` functions later.  Whatever is evaluated on both comes to
the same, but for stamps: nothing an evaluation does depends on the number of
functions that were made before.

Main statement: with as many levels left, a later machine evaluates alike
(`ageless_evaluator`), by induction on the levels.
-/
import DrawLang.Proofs.Evaluation.Agreement
import DrawLang.Proofs.Value.Later

namespace DrawLang

/-- An environment and what it is later. -/
def Environment.Later {β : Type} (k : Nat) (e e' : Environment (Value β)) : Prop :=
  e' = e.map (Value.later k)

open Environment DrawLang.Action

variable {k : Nat}

/-! ### Actions -/

namespace Action

variable {β ε α α' : Type}

theorem mirrors_known_later (site : Site) (name : Text) :
    Mirrors (Later k) k noExcuse (Likeness.later k).value (known site name : Action β ε (Value β))
      (known site name) := by
  intro m m' hm
  have henv : m'.environment = m.environment.map (Value.later k) := hm.environment
  have hfind := Environment.find?_map (Value.later k) m.environment name
  rw [← henv] at hfind
  rcases e : m.environment.find? name with - | v <;> rw [e] at hfind
  · rw [known_of_free e, known_of_free hfind]
    exact agree_error _ hm
  · rw [known_of_bound e, known_of_bound hfind]
    exact .ok ⟨rfl, hm⟩

theorem mirrors_close_later (params : List Text) (body : β) (text : Text) :
    Mirrors (Later k) k noExcuse (Likeness.later k).value
      (close params body text : Action β ε (Value β)) (close params body text) := by
  refine mirrors_bind mirrors_stamp ?_
  rintro n _ rfl m m' hm
  have henv : m'.environment = m.environment.map (Value.later k) := hm.environment
  refine .ok ⟨?_, hm⟩
  show Value.function _ = Value.later k (.function _)
  rw [henv, frames_map, ← Value.laterFrames_eq_map, Value.later, Function.later]

theorem mirrors_named_later (name : Text) (v : Value β) :
    Mirrors (Later k) k noExcuse (Likeness.later k).value (named name v : Action β ε (Value β))
      (named name (v.later k)) := by
  rcases v with - | - | - | - | - | - | ⟨stamp, own | own, params, closure, body, text⟩ | -
  case function.none =>
    refine mirrors_bind mirrors_stamp ?_
    rintro n _ rfl
    exact mirrors_pure rfl
  all_goals exact mirrors_pure rfl

theorem mirrors_define_later (site : Site) (name : Text) (v : Value β) :
    Mirrors (Later k) k noExcuse (fun _ _ => True) (define site name v : Action β ε Unit)
      (define site name (v.later k)) := by
  intro m m' hm
  have henv : m'.environment = m.environment.map (Value.later k) := hm.environment
  have hlocal := Environment.hasLocal_map (Value.later k) m.environment name
  rw [← henv] at hlocal
  rcases e : m.environment.hasLocal name with - | - <;> rw [e] at hlocal
  · rw [define_of_new v e, define_of_new _ hlocal]
    refine agree_bind (mirrors_named_later name v m m' hm) ?_
    rintro w _ n n' ⟨rfl, hn⟩
    have henv' : n'.environment = n.environment.map (Value.later k) := hn.environment
    -- the name may have been given to a function, with stamps that differ by `k`
    refine .ok ⟨trivial, ?_, hn.cancelled, hn.created⟩
    show n'.environment.insert name _ = _
    rw [henv', Environment.insert_map]
  · rw [define_of_bound v e, define_of_bound _ hlocal]
    exact agree_error _ hm

theorem mirrors_remove_later (count : Nat) :
    Mirrors (Later k) k noExcuse (fun _ _ => True) (remove count : Action β ε Unit)
      (remove count) := by
  intro m m' hm
  have henv : m'.environment = m.environment.map (Value.later k) := hm.environment
  have hpop := Environment.pop?_map (Value.later k) m.environment count
  have hdepth := Environment.depth_map (Value.later k) m.environment
  rw [← henv] at hpop hdepth
  rcases e : m.environment.pop? count with - | e' <;> rw [e] at hpop
  · rw [remove_of_no_pop e, remove_of_no_pop hpop, hdepth]
    exact .crash _ _ _
  · rw [remove_of_pop e, remove_of_pop hpop]
    exact .ok ⟨trivial, rfl, hm.cancelled, hm.created⟩

theorem mirrors_inside_later (site : Site) (frames : List (Frame (Value β))) {V : α → α' → Prop}
    {body : Action β ε α} {body' : Action β ε α'} (h : Mirrors (Later k) k noExcuse V body body') :
    Mirrors (Later k) k noExcuse V (inside site frames body)
      (inside site (frames.map (Frame.mapValues (Value.later k))) body') := by
  intro m m' hm
  have henv : m'.environment = m.environment.map (Value.later k) := hm.environment
  have hbody := mirrors_bind (mirrors_checkpoint site) (fun _ _ _ => h)
    { m with environment := m.environment.push frames }
    { m' with environment := m'.environment.push (frames.map (Frame.mapValues (Value.later k))) }
    ⟨henv ▸ push_map _ _ frames, hm.cancelled, hm.created⟩
  unfold inside
  rw [List.length_map]
  generalize (checkpoint site >>= fun _ => body) _ = r,
    (checkpoint site >>= fun _ => body') _ = r' at hbody ⊢
  cases hbody with
  | ok h =>
    exact agree_bind (mirrors_remove_later frames.length _ _ h.2) fun _ _ _ _ hn => .ok ⟨h.1, hn.2⟩
  | fault h =>
    exact agree_bind (mirrors_remove_later frames.length _ _ h) fun _ _ _ _ hn => .fault hn.2
  | crash c n n' => exact .crash c n n'
  | excused h => exact h.elim

end Action

/-! ### Evaluators -/

/-- What the evaluator does on a machine and on one that is later by `k` is alike. -/
structure Evaluator.Ageless {ε : Type} (k : Nat) (e : Evaluator ε) : Prop where
  expr : ∀ source x,
    Mirrors (Later k) k noExcuse (Likeness.later k).value (e.expr source x) (e.expr source x)
  scope : ∀ source s,
    Mirrors (Later k) k noExcuse (Likeness.later k).value (e.scope source s) (e.scope source s)
  call : ∀ site callee callee' args args', (Likeness.later k).value callee callee' →
    List.Forall₂ (Likeness.later k).value args args' →
      Mirrors (Later k) k noExcuse (Likeness.later k).value (e.call site callee args)
        (e.call site callee' args')

namespace Evaluator

variable {ε : Type} {e : Evaluator ε}

theorem mirrors_definitions_later (h : e.Ageless k)
    (source : Text) (ds : List (Definition Scope)) :
    Mirrors (Later k) k noExcuse (fun _ _ => True) (e.definitions source ds)
      (e.definitions source ds) := by
  induction ds with
  | nil => exact mirrors_pure trivial
  | cons d ds ih =>
    refine mirrors_bind (h.scope source d.body) ?_
    rintro v _ rfl
    exact mirrors_bind (mirrors_define_later _ d.name v) fun _ _ _ => ih

theorem mirrors_value_later (source : Text) (span : Span) (a : Atom) :
    Mirrors (Later k) k noExcuse (Likeness.later k).value
      (a.value source span : Action Code ε (Value Code)) (a.value source span) := by
  rcases a with - | - | - | - | id
  case name => exact mirrors_known_later _ id
  all_goals exact mirrors_pure rfl

theorem ageless_step {deeper : Option (Evaluator ε)}
    (h : Option.Rel (fun e e' => e' = e ∧ e.Ageless k) deeper deeper) :
    (step deeper).Ageless k where
  expr source x := by
    rcases x with ⟨a, span⟩ | ⟨params, body, span⟩ | ⟨callee, lists, span⟩
    · exact mirrors_value_later source span a
    · exact mirrors_close_later _ _ _
    · refine mirrors_descend _ h ?_
      rintro e _ ⟨rfl, he⟩
      refine mirrors_bind (he.expr source callee) fun v v' hv => ?_
      exact mirrors_lists (fun _ _ x _ => he.expr source x) he.call callee.span hv
  scope source s := by
    refine mirrors_descend _ h ?_
    rintro e _ ⟨rfl, he⟩
    refine mirrors_inside_later _ [[]] ?_
    refine mirrors_bind (mirrors_definitions_later he source s.definitions) fun _ _ _ => ?_
    exact he.expr source s.result
  call site callee callee' args args' hcallee hargs := by
    by_cases hf : ∃ f, callee = .function f
    · obtain ⟨f, rfl⟩ := hf
      obtain rfl : callee' = .function (f.later k) := hcallee
      obtain rfl : args' = args.map (Value.later k) := (Likeness.later_forall₂ k).1 hargs
      show Mirrors _ _ _ _ (callFunction _ site f args) (callFunction _ site (f.later k) _)
      -- later, a function has the same parameters and body, and keeps what it kept, later
      unfold callFunction
      rw [f.arity_later, List.length_map, f.body_later, f.locals_later, f.closure_later]
      split
      · rw [descend_map, descend_map]
        refine mirrors_descend site h ?_
        rintro e _ ⟨rfl, he⟩
        have hbody := he.expr f.body.source f.body.expr
        exact mirrors_inside_later site (f.locals args :: f.closure) hbody
      · exact mirrors_throw _
    · exact mirrors_call_of_plan _ _ _ site (fun f hc => hf ⟨f, hc⟩) hcallee hargs

end Evaluator

/-- **Evaluation does not depend on how many functions were made before.** -/
theorem ageless_evaluator {ε : Type} (k levels : Nat) :
    (evaluator levels : Evaluator ε).Ageless k := by
  induction levels with
  | zero => exact Evaluator.ageless_step .none
  | succ levels ih => exact Evaluator.ageless_step (.some ⟨rfl, ih⟩)

end DrawLang
