/-
DrawLang/Proofs/Evaluation/Balance.lean

Evaluation is balanced: on whatever path it ends, the frames it added are gone,
what was beneath them is untouched, and as many levels are active as before.

Two relations say what an action may do to a machine.  `Restored`: environment
and level are what they were.  `Extended`: the same but for the innermost
frame, which definitions add to.  Running something `inside` frames of its own
turns the second into the first (`restores_inside`), since removing as many
frames as were added then gives back the environment beneath them
(`Environment.pop?_of_beneath`).

Main statement: the parts of every evaluator restore the machine
(`balanced_evaluator`), since the rules of evaluation hold for what restores it
(`rules_restores`).
-/
import DrawLang.Proofs.Action.Brackets
import DrawLang.Proofs.Evaluation.Rules

namespace DrawLang

/-! ### Frames beneath the innermost one -/

namespace Environment

variable {α : Type}

/-- The frames beneath the innermost one. -/
def beneath (e : Environment α) : List (Frame α) := e.frames.tail

theorem beneath_insert (e : Environment α) (name : Text) (value : α) :
    (e.insert name value).beneath = e.beneath := by
  rcases e with ⟨- | ⟨f, fs⟩, global⟩ <;> rfl

/-- If what is beneath the innermost frame is as it was when frames were added,
removing as many gives back what they were added to. -/
theorem pop?_of_beneath {e e' : Environment α} {frames : List (Frame α)} (hne : frames ≠ [])
    (h : e'.beneath = (e.push frames).beneath) : e'.pop? frames.length = some e := by
  rcases frames with - | ⟨f, fs⟩
  · exact absurd rfl hne
  rcases e' with ⟨- | ⟨g, gs⟩, global⟩
  · simp [beneath, frames, push] at h
  -- beneath the innermost frame stand the inner ones and, last, the global one
  · have happ : gs ++ [global] = (fs ++ e.inner) ++ [e.global] := by
      simpa [beneath, frames, push] using h
    obtain ⟨hgs, hglobal⟩ := List.append_inj' happ rfl
    obtain rfl : global = e.global := List.singleton_inj.1 hglobal
    simp [pop?, hgs]

end Environment

/-! ### Two relations between machines -/

namespace Machine

variable {β ε : Type}

/-- Environment and level are as before. -/
structure Restored (m m' : Machine β ε) : Prop where
  environment : m'.environment = m.environment
  level : m'.level = m.level

/-- The level and all frames but the innermost one are as before. -/
structure Extended (m m' : Machine β ε) : Prop where
  beneath : m'.environment.beneath = m.environment.beneath
  level : m'.level = m.level

instance : IsPreorder (Machine β ε) Restored where
  refl _ := ⟨rfl, rfl⟩
  trans _ _ _ h h' := ⟨h'.environment.trans h.environment, h'.level.trans h.level⟩

instance : IsPreorder (Machine β ε) Extended where
  refl _ := ⟨rfl, rfl⟩
  trans _ _ _ h h' := ⟨h'.beneath.trans h.beneath, h'.level.trans h.level⟩

theorem Restored.extended {m m' : Machine β ε} (h : Restored m m') : Extended m m' :=
  ⟨congrArg Environment.beneath h.environment, h.level⟩

end Machine

open Machine

/-! ### Actions that restore the machine -/

namespace Action

variable {β ε α δ : Type}

/-- Environment and level are as before, whatever comes of it. -/
abbrev Restores (a : Action β ε α) : Prop := Leaves Restored a

theorem Restores.extends {a : Action β ε α} (h : Restores a) : Leaves Extended a :=
  Leaves.mono h fun _ _ => Restored.extended

theorem restores_checkpoint (site : Site) : Restores (checkpoint site : Action β ε Unit) := by
  intro m
  rcases hc : m.cancelled with - | -
  · exact (ends_of_ok (checkpoint_of_calm site hc)).2 (refl_of Restored m)
  · refine (ends_of_error (checkpoint_of_cancelled site hc)).2 ?_
    exact kept_of_hasFrames (site.hasFrames_blame _ _) ⟨rfl, rfl⟩

theorem restores_stamp : Restores (stamp : Action β ε Nat) :=
  fun m => (⟨rfl, rfl⟩ : Restored m { m with created := m.created + 1 })

theorem restores_get : Restores (get : Action β ε (Machine β ε)) :=
  fun m => refl_of Restored m

theorem restores_known (site : Site) (name : Text) :
    Restores (known site name : Action β ε (Value β)) := by
  intro m
  unfold Ends known
  rcases m.environment.find? name with - | v
  · exact leaves_throw (site.hasFrames_blameArgument _ _ _) m
  · exact leaves_pure v m

theorem extends_insert (name : Text) (v : Value β) :
    Leaves Extended (modify fun m : Machine β ε =>
      { m with environment := m.environment.insert name v }) :=
  fun m => (⟨Environment.beneath_insert m.environment name v, rfl⟩ :
    Extended m { m with environment := m.environment.insert name v })

theorem restores_descend (site : Site) {deeper : Option δ} {body : δ → Action β ε α}
    (h : ∀ d, deeper = some d → Restores (body d)) : Restores (descend site deeper body) := by
  intro m
  rcases deeper with - | d
  · exact leaves_throw (site.hasFrames_blame _ _) m
  · have hbody := h d rfl { m with level := m.level + 1 }
    -- the level goes up before the body and down behind it
    have hdown : ∀ m', Restored { m with level := m.level + 1 } m' →
        Restored m { m' with level := m'.level - 1 } := fun m' h =>
      ⟨h.environment, by rw [h.level, Nat.add_sub_cancel]⟩
    rcases e : body d { m with level := m.level + 1 } with ⟨v, m'⟩ | ⟨f | c, m'⟩
    · have hm' : Restored _ m' := (ends_of_ok e).1 hbody
      exact (ends_of_ok (descend_of_ok e)).2 (hdown m' hm')
    · have hm' : Restored _ m' := (ends_of_error e).1 hbody
      exact (ends_of_error (descend_of_error e)).2 (hdown m' hm')
    · have hc : (Stop.crash c).HasFrames := (ends_of_error e).1 hbody
      exact (ends_of_error (descend_of_error e)).2 hc

/-- What runs inside frames of its own restores the machine if it changes
nothing beneath the innermost of them. -/
theorem restores_inside (site : Site) {frames : List (Frame (Value β))} (hne : frames ≠ [])
    {body : Action β ε α} (h : Leaves Extended body) : Restores (inside site frames body) := by
  intro m
  have hbody := leaves_bind (restores_checkpoint site).extends (fun _ => h)
    { m with environment := m.environment.push frames }
  -- the frames are removed behind a value and behind a fault; a crash leaves them there
  rcases e : (checkpoint site >>= fun _ => body)
    { m with environment := m.environment.push frames } with ⟨v, m'⟩ | ⟨f | c, m'⟩
  · have hm' : Extended _ m' := (ends_of_ok e).1 hbody
    have hpop := Environment.pop?_of_beneath hne hm'.beneath
    refine (ends_of_ok ((inside_of_ok e).trans (bind_of_ok (remove_of_pop hpop) _))).2 ?_
    exact (⟨rfl, hm'.level⟩ : Restored m { m' with environment := m.environment })
  · have hm' : Extended _ m' := (ends_of_error e).1 hbody
    have hpop := Environment.pop?_of_beneath hne hm'.beneath
    refine (ends_of_error ((inside_of_fault e).trans (bind_of_ok (remove_of_pop hpop) _))).2 ?_
    exact (⟨rfl, hm'.level⟩ : Restored m { m' with environment := m.environment })
  · have hc : (Stop.crash c).HasFrames := (ends_of_error e).1 hbody
    exact (ends_of_error (inside_of_crash e)).2 hc

/-- **The rules hold for what restores the machine**; inside frames the innermost one may
change. -/
theorem rules_restores : Rules (β := β) (ε := ε) Restores (Leaves Extended) where
  inner := Restores.extends
  pure := leaves_pure
  taken site _ := leaves_throw (site.hasFrames_blameArgument _ _ _)
  throw hs := leaves_throw hs.hasFrames
  bind := leaves_bind
  bind_inner := leaves_bind
  get := restores_get
  stamp := restores_stamp
  checkpoint := restores_checkpoint
  known := restores_known
  insert := extends_insert
  descend site _ _ := restores_descend site
  inside site _ _ hne := restores_inside site hne

end Action

open DrawLang.Action

/-! ### Evaluators -/

/-- The parts of an evaluator restore the machine. -/
structure Evaluator.Balanced {ε : Type} (e : Evaluator ε) : Prop where
  expr : ∀ source x, Restores (e.expr source x)
  scope : ∀ source s, Restores (e.scope source s)
  call : ∀ site callee args, Restores (e.call site callee args)

namespace Evaluator

variable {ε : Type} {e : Evaluator ε}

theorem Balanced.keeps (h : e.Balanced) : e.Keeps Restores := ⟨h.expr, h.scope, h.call⟩

theorem restores_items (h : e.Balanced) (source : Text) (xs : List Expr) :
    Restores (e.items source xs) :=
  h.keeps.items rules_restores source xs

theorem restores_lists (h : e.Balanced) (source : Text) (span : Span)
    (lists : List (Arguments Expr)) (v : Value Code) :
    Restores (e.lists source v span lists) :=
  h.keeps.lists rules_restores source span lists v

theorem extends_definitions (h : e.Balanced) (source : Text) (ds : List (Definition Scope)) :
    Leaves Extended (e.definitions source ds) :=
  h.keeps.definitions rules_restores source ds

end Evaluator

/-- **Evaluation is balanced**, however many levels are left. -/
theorem balanced_evaluator {ε : Type} (levels : Nat) :
    (evaluator levels : Evaluator ε).Balanced := by
  obtain ⟨hexpr, hscope, hcall⟩ := rules_restores.evaluator (ε := ε) levels
  exact ⟨hexpr, hscope, hcall⟩

end DrawLang
