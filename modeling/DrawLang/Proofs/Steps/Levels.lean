/-
DrawLang/Proofs/Steps/Levels.lean

Levels, moment by moment.  A step does one of four things (`Moment.Move`): it
goes one level deeper, it fails to because `levelLimit` levels are active, it
ends a level, or it leaves the levels alone.  So the level of the machine is at
every moment the number of levels that are pending, on top of those that were
active at the start, and a fault for too many levels comes from a step that tries
to go deeper than that and from nowhere else.

A stop is never caught: what is pending only lets it through.  Hence the stop of
such a step is also what the whole evaluation comes to.

Main statements: `Moment.move_of_step`, and from it by induction along the steps
`Moment.level_of_steps`, `Moment.limit_of_steps` and `Moment.full_of_depth`.
-/
import DrawLang.Proofs.Action.Meeting
import DrawLang.Proofs.Steps.Basic

namespace DrawLang

open DrawLang.Action

variable {ε α γ : Type}

/-! ### Actions that have nothing to do with levels -/

namespace Action

/-- The action leaves as many levels active as there were, and is not stopped by too many. -/
abbrev Flat (a : Action Code ε α) : Prop :=
  ∀ d, Meets (fun m => m.level = d) (fun _ => True) (Stop.Avoids .depth) a

theorem flat_checkpoint (site : Site) : Flat (checkpoint site : Action Code ε Unit) :=
  fun _ => meets_checkpoint (fun _ hm => hm) (Stop.avoids_at _ _ _ (by decide))

theorem flat_value (source : Text) (span : Span) (a : Atom) :
    Flat (a.value source span : Action Code ε (Value Code)) := by
  intro d
  rcases a with - | - | - | - | id
  case name => exact meets_known (fun _ _ _ _ => trivial) (Stop.avoids_at _ _ _ (by decide))
  all_goals exact meets_pure trivial

theorem flat_close (params : List Text) (body : Code) (text : Text) :
    Flat (close params body text : Action Code ε (Value Code)) :=
  fun _ => meets_close (fun _ hm => hm) fun _ _ _ => trivial

theorem flat_define (site : Site) (name : Text) (v : Value Code) :
    Flat (define site name v : Action Code ε Unit) :=
  fun _ => meets_define (V := fun _ => True) (fun _ hm => hm) (fun _ _ hm _ => hm)
    (Stop.avoids_at _ _ _ (by decide)) trivial fun _ _ _ => trivial

theorem flat_call_of_plan (site : Site) {callee : Value Code} (args : List (Value Code))
    (h : ∀ f, callee ≠ .function f) :
    Flat (Action.call none site callee args : Action Code ε (Value Code)) := by
  intro d
  rw [call_eq_settle none site callee args h]
  refine meets_settle (fun _ hm => hm) (Stop.avoids_at _ _ _ (by decide)) ?_
  have hmisused := Value.misused_plan site args callee
  generalize callee.plan site args >>= Prod.snd = x at hmisused ⊢
  rcases x with s | v
  · exact (hmisused s rfl).avoids (by decide)
  · trivial

end Action

/-! ### What a step does to levels -/

/-- Is it a level that is pending? -/
def Pending.isLevel : Pending → Bool
  | level => true
  | _ => false

/-- Where a task takes a level, if it does. -/
def Task.site? : Task → Option Site
  | .expr source (.calls _ _ span) => some (.plain source span)
  | .scope source program => some (.plain source program.span)
  | .call site (.function f) args => if f.arity.accepts args.length then some site else none
  | _ => none

namespace Moment

/-- The number of levels that are pending. -/
def levels (c : Moment ε) : Nat := c.pending.countP Pending.isLevel

/-- Where the next step tries to go one level deeper, if it does. -/
def attempt? (c : Moment ε) : Option Site :=
  match c.focus with
  | .task t => t.site?
  | .ended _ => none

/-- What a step does to levels. -/
inductive Move (c c' : Moment ε) : Prop
  | deeper (site : Site) (body : Task) (attempt : c.attempt? = some site)
    (left : c.machine.level < levelLimit) (level : c'.machine.level = c.machine.level + 1)
    (levels : c'.levels = c.levels + 1) (focus : c'.focus = .task body)
  | full (site : Site) (attempt : c.attempt? = some site) (full : levelLimit ≤ c.machine.level)
    (level : c'.machine.level = c.machine.level) (levels : c'.levels = c.levels)
    (focus : c'.focus = .ended (.error site.tooDeep))
  | leave (attempt : c.attempt? = none) (level : c'.machine.level = c.machine.level - 1)
    (levels : c.levels = c'.levels + 1) (focus : c'.focus = c.focus)
  | flat (attempt : c.attempt? = none) (level : c'.machine.level = c.machine.level)
    (levels : c'.levels = c.levels)
    (stop : ∀ s, c'.focus = .ended (.error s) → c.focus = .ended (.error s) ∨ s.Avoids .depth)

theorem move_enter {t : Task} {site : Site} (ht : t.site? = some site) (body : Task)
    (pending : List Pending) (m : Machine Code ε) :
    Move ⟨.task t, pending, m⟩ (enter pending m site body) := by
  unfold enter
  split
  case isTrue hfull => exact .full site ht hfull rfl rfl rfl
  case isFalse hleft =>
    exact .deeper site body ht (Nat.not_le.1 hleft) rfl (List.countP_cons_of_pos rfl) rfl

/-- A step that goes on with a task, where no level begins or ends. -/
theorem move_task {c : Moment ε} (hc : c.attempt? = none) {t : Task} {pending : List Pending}
    {m : Machine Code ε} (hm : m.level = c.machine.level)
    (hpending : pending.countP Pending.isLevel = c.levels) : Move c ⟨.task t, pending, m⟩ := by
  refine .flat hc hm hpending ?_
  rintro s ⟨⟩

/-- A step that ends in a value, where no level begins or ends. -/
theorem move_value {c : Moment ε} (hc : c.attempt? = none) {v : Value Code}
    {pending : List Pending} {m : Machine Code ε} (hm : m.level = c.machine.level)
    (hpending : pending.countP Pending.isLevel = c.levels) :
    Move c ⟨.ended (.ok v), pending, m⟩ := by
  refine .flat hc hm hpending ?_
  rintro s ⟨⟩

/-- A step that is made by one action, which has nothing to do with levels. -/
theorem move_after {c : Moment ε} (hc : c.attempt? = none) {pending : List Pending}
    (hpending : pending.countP Pending.isLevel = c.levels) {a : Action Code ε (Value Code)}
    (h : ∀ d, Meets (fun m => m.level = d) (fun _ => True)
      (fun s => c.focus = .ended (.error s) ∨ s.Avoids .depth) a) :
    Move c (after pending (a c.machine)) := by
  have ha := h c.machine.level c.machine rfl
  rcases e : a c.machine with ⟨v, m'⟩ | ⟨s, m'⟩
  · exact move_value hc ((ends_of_ok e).1 ha).1 hpending
  · refine .flat hc ((ends_of_error e).1 ha).1 hpending ?_
    rintro _ ⟨⟩
    exact ((ends_of_error e).1 ha).2

theorem move_flat {c : Moment ε} (hc : c.attempt? = none) {a : Action Code ε (Value Code)}
    (h : Flat a) : Move c (after c.pending (a c.machine)) :=
  move_after hc rfl fun d => (h d).mono (fun _ h => h) fun _ => .inr

theorem move_start (pending : List Pending) (m : Machine Code ε) (t : Task) :
    Move ⟨.task t, pending, m⟩ (start pending m t) := by
  cases t with
  | expr source x =>
    rcases x with ⟨a, span⟩ | ⟨params, body, span⟩ | ⟨callee, lists, span⟩
    · exact move_flat rfl (flat_value source span a)
    · exact move_flat rfl (flat_close _ _ _)
    · exact move_enter rfl _ pending m
  | scope source program => exact move_enter rfl _ pending m
  | call site callee args =>
    by_cases hf : ∃ f, callee = .function f
    · obtain ⟨f, rfl⟩ := hf
      rcases haccepts : f.arity.accepts args.length with - | -
      · have hnone : (Task.call site (.function f) args).site? = none := by
          rw [Task.site?, haccepts]
          rfl
        rw [start, haccepts]
        refine .flat hnone rfl rfl ?_
        rintro _ ⟨⟩
        exact .inr ((misuse_blameArity site f.arity args.length).avoids (by decide))
      · have hsome : (Task.call site (.function f) args).site? = some site := by
          rw [Task.site?, haccepts]
          rfl
        rw [start, haccepts]
        exact move_enter hsome _ pending m
    · have hplain : ∀ f, callee ≠ .function f := fun f hc => hf ⟨f, hc⟩
      have hnone : (Task.call site callee args).site? = none := by
        cases callee with
        | function f => exact absurd rfl (hplain f)
        | number | string | color | sequence | vector | shape | builtin => rfl
      rw [start_call_of_plain pending m site args hplain]
      exact move_flat (c := ⟨.task (.call site callee args), pending, m⟩) hnone
        (flat_call_of_plan site args hplain)
  | chain source callee lists => exact move_task rfl rfl rfl
  | lists source callee span lists =>
    rcases lists with - | ⟨list, more⟩
    · exact move_value rfl rfl rfl
    · exact move_task rfl rfl rfl
  | arguments source callee span list args todo more =>
    rcases todo with - | ⟨x, todo⟩
    · exact move_task rfl rfl rfl
    · exact move_task rfl rfl rfl
  | definitions source ds result =>
    rcases ds with - | ⟨first, ds⟩
    · exact move_task rfl rfl rfl
    · exact move_task rfl rfl rfl
  | inside site frame frames body =>
    have hcheck := flat_checkpoint site m.level
      { m with environment := m.environment.push (frame :: frames) } rfl
    rw [start]
    rcases e : checkpoint site { m with environment := m.environment.push (frame :: frames) } with
      ⟨u, m'⟩ | ⟨s, m'⟩
    · have hm' := (ends_of_ok e).1 hcheck
      exact move_task rfl hm'.1 (List.countP_cons_of_neg Bool.false_ne_true)
    · have hm' := (ends_of_error e).1 hcheck
      refine .flat rfl hm'.1 (List.countP_cons_of_neg Bool.false_ne_true) ?_
      rintro _ ⟨⟩
      exact .inr hm'.2

/-- A stop goes through an entry that is no level. -/
theorem move_stop (pending : List Pending) (m : Machine Code ε) {p : Pending}
    (hp : p.isLevel = false) (s : Stop) :
    Move ⟨.ended (.error s), p :: pending, m⟩ ⟨.ended (.error s), pending, m⟩ := by
  refine .flat rfl rfl (List.countP_cons_of_neg (Bool.eq_false_iff.1 hp)).symm ?_
  exact fun _ h => .inl h

/-- Removing frames brings up no stop but its own crash. -/
theorem move_frames (pending : List Pending) (m : Machine Code ε) (count : Nat)
    (r : Except Stop (Value Code)) :
    Move ⟨.ended r, .frames count :: pending, m⟩
      (after pending ((remove count >>= fun _ => check r) m)) := by
  refine move_after rfl (List.countP_cons_of_neg Bool.false_ne_true).symm fun d => ?_
  refine meets_bind (meets_remove (fun _ _ hm _ => hm) fun _ => .inr (Stop.avoids_crash _))
    fun _ _ => meets_check ?_
  rcases r with s | v
  · exact .inl rfl
  · trivial

theorem move_resume (pending : List Pending) (m : Machine Code ε) (p : Pending)
    (r : Except Stop (Value Code)) :
    Move ⟨.ended r, p :: pending, m⟩ (resume pending m p r) := by
  cases p with
  | level => exact .leave rfl rfl (List.countP_cons_of_pos rfl) rfl
  | frames count =>
    rcases r with (f | c) | v
    · exact move_frames pending m count _
    · exact move_stop pending m rfl _
    · exact move_frames pending m count _
  | lists source span lists =>
    rcases r with s | v
    · exact move_stop pending m rfl s
    · exact move_task rfl rfl (List.countP_cons_of_neg Bool.false_ne_true).symm
  | argument source callee span list args todo more =>
    rcases r with s | v
    · exact move_stop pending m rfl s
    · exact move_task rfl rfl (List.countP_cons_of_neg Bool.false_ne_true).symm
  | definition source first ds result =>
    rcases r with s | v
    · exact move_stop pending m rfl s
    · have hdefine := flat_define (first.site source) first.name v m.level m rfl
      rw [resume]
      rcases e : define (first.site source) first.name v m with ⟨u, m'⟩ | ⟨s, m'⟩
      · have hm' := (ends_of_ok e).1 hdefine
        exact move_task rfl hm'.1 (List.countP_cons_of_neg Bool.false_ne_true).symm
      · have hm' := (ends_of_error e).1 hdefine
        refine .flat rfl hm'.1 (List.countP_cons_of_neg Bool.false_ne_true).symm ?_
        rintro _ ⟨⟩
        exact .inr hm'.2

/-- **What a step does to levels.** -/
theorem move_of_step {c c' : Moment ε} (h : Step c c') : Move c c' := by
  obtain ⟨t | r, pending, m⟩ := c
  · obtain rfl : start pending m t = c' := Option.some.inj h
    exact move_start pending m t
  · rcases pending with - | ⟨p, pending⟩
    · cases h
    · obtain rfl : resume pending m p r = c' := Option.some.inj h
      exact move_resume pending m p r

/-! ### What all steps do to levels -/

/-- **At every moment the level is the number of levels that are pending**, on top
of those that were active at the start. -/
theorem level_of_steps {c c' : Moment ε} (h : Steps c c') {d : Nat}
    (hc : c.machine.level = d + c.levels) : c'.machine.level = d + c'.levels := by
  induction h with
  | refl => exact hc
  | tail _ hstep ih =>
    cases move_of_step hstep with
    | deeper site body attempt left level levels focus => omega
    | full site attempt full level levels focus => omega
    | leave attempt level levels focus => omega
    | flat attempt level levels stop => omega

/-- **No more than `levelLimit` levels are ever active**, if it is not so at the start. -/
theorem limit_of_steps {c c' : Moment ε} (h : Steps c c') (hc : c.machine.level ≤ levelLimit) :
    c'.machine.level ≤ levelLimit := by
  induction h with
  | refl => exact hc
  | tail _ hstep ih =>
    cases move_of_step hstep with
    | deeper site body attempt left level levels focus => omega
    | full site attempt full level levels focus => omega
    | leave attempt level levels focus => omega
    | flat attempt level levels stop => omega

/-- The next step tries to go deeper than is allowed. -/
def Full (c : Moment ε) (site : Site) : Prop :=
  c.attempt? = some site ∧ levelLimit ≤ c.machine.level

/-- **A fault for too many levels tells of a moment when all of them were active**
and one more was tried. -/
theorem full_of_depth {c c' : Moment ε} (h : Steps c c') {f : Fault} (hf : f.kind = .depth)
    (hc : c.focus ≠ .ended (.error (.fault f)))
    (hc' : c'.focus = .ended (.error (.fault f))) :
    ∃ d site, Steps c d ∧ d.Full site ∧ Stop.fault f = site.tooDeep := by
  induction h with
  | refl => exact absurd hc' hc
  | @tail d c' hsteps hstep ih =>
    cases move_of_step hstep with
    | deeper site body attempt left level levels focus =>
      rw [focus] at hc'
      cases hc'
    | full site attempt full level levels focus =>
      have hstop := Except.error.inj (Focus.ended.inj (focus.symm.trans hc'))
      exact ⟨d, site, hsteps, ⟨attempt, full⟩, hstop.symm⟩
    | leave attempt level levels focus => exact ih (focus ▸ hc')
    | flat attempt level levels stop =>
      rcases stop _ hc' with hd | havoids
      · exact ih hd
      · exact absurd hf (havoids f rfl)

end Moment

end DrawLang
