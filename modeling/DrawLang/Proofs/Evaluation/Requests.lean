/-
DrawLang/Proofs/Evaluation/Requests.lean

Requests to stop, felt once each.  Evaluation heeds them (`heedful_evaluator`), and so do
the services of a machine (`heeds_service`): a pending request is taken away exactly by
an interruption, and there is none without a request.  A program that is run while a
request is pending goes one level deeper, adds its frame and stops there, before its first
definition (`Moment.steps_of_cancelled`).

So over any number of demands there are no more interruptions than requests
(`Machine.count_answers`).

Main statement: `requests_are_felt_once`.
-/
import DrawLang.Proofs.Action.Heeding
import DrawLang.Proofs.Evaluation.Services
import DrawLang.Proofs.Evaluation.Shown
import DrawLang.Proofs.Grammar.Acceptance
import DrawLang.Proofs.Steps.Termination

namespace DrawLang

open DrawLang.Action

variable {ε : Type}

/-! ### Evaluators -/

/-- **The rules hold for what heeds requests** and comes to no faults but mistakes. -/
theorem rules_heeds {β : Type} :
    Rules (β := β) (ε := ε) (Heeds mistakes) (Heeds mistakes) where
  inner := id
  pure := heeds_pure
  taken _ _ := heeds_throw (Stop.isOf_at _ _ _ (by decide))
  throw hs := heeds_throw hs.isOf
  bind := heeds_bind
  bind_inner := heeds_bind
  get := heeds_get
  stamp := heeds_stamp
  checkpoint := heeds_checkpoint
  known := heeds_known
  insert _ _ _ := rfl
  descend site _ _ := heeds_descend site
  inside site frames _ _ := heeds_inside site frames

/-- **Evaluation heeds requests**, however many levels are left. -/
theorem heedful_evaluator (levels : Nat) :
    (evaluator levels : Evaluator ε).Keeps (Heeds mistakes) :=
  rules_heeds.evaluator levels

/-! ### Services -/

namespace Machine

theorem heeds_run (program : Scope) (source : Text) :
    Heeds mistakes (run program source : Action Code ε (Value Code)) :=
  heeds_bind heeds_get fun m => (heedful_evaluator (levelLimit - m.level)).scope source program

theorem heeds_apply (callee : Value Code) (args : List (Value Code)) :
    Heeds mistakes (apply callee args : Action Code ε (Value Code)) :=
  heeds_bind heeds_get fun m => (heedful_evaluator (levelLimit - m.level)).call _ callee args

end Machine

/-- **Services heed requests.** -/
theorem heeds_service (s : Service) :
    Heeds (.parse :: mistakes) (s.action : Action Code ε (Value Code)) := by
  have hmistakes : mistakes ⊆ .parse :: mistakes := List.subset_cons_self _ _
  cases s with
  | run program source => exact (Machine.heeds_run program source).mono hmistakes
  | apply callee args => exact (Machine.heeds_apply callee args).mono hmistakes
  | evaluate source =>
    show Heeds _ (Machine.evaluate source)
    rw [Machine.evaluate]
    split
    · rename_i r hread
      refine heeds_throw (Stop.isOf_at _ _ _ ?_)
      rw [Scope.kind_of_ofText hread]
      exact List.mem_cons_self
    · exact (Machine.heeds_run _ source).mono hmistakes

/-! ### Programs that are run while a request is pending -/

namespace Moment

variable {source : Text} {program : Scope} {m : Machine Code ε} {f : Fault}

theorem start_inside_of_cancelled (pending : List Pending) (site : Site) (frame : Bindings)
    (frames : List Bindings) (body : Task) (h : m.cancelled = true) :
    start pending m (.inside site frame frames body) =
      ⟨.ended (.error (site.blame .completion "interruption".toList)),
        .frames (frames.length + 1) :: pending,
        { m with environment := m.environment.push (frame :: frames), cancelled := false }⟩ := by
  have hcheck := checkpoint_of_cancelled site
    (m := { m with environment := m.environment.push (frame :: frames) }) h
  rw [start, hcheck]

/-- What a program does first: to add its frame, before its definitions. -/
def opening (source : Text) (program : Scope) : Task :=
  .inside (.plain source program.span) [] []
    (.definitions source program.definitions program.result)

/-- **A program goes one level deeper and stops when it adds its frame**, where a request
is pending. -/
theorem steps_of_cancelled (hlevel : m.level < levelLimit) (hcancelled : m.cancelled = true)
    (hblame : (Site.plain source program.span).blame .completion "interruption".toList = .fault f) :
    ∃ c c', Step ⟨.task (.scope source program), [], m⟩ c ∧
      c.focus = .task (opening source program) ∧ Step c c' ∧
      c'.focus = .ended (.error (.fault f)) ∧
      Steps c' ⟨.ended (.error (.fault f)), [], { m with cancelled := false }⟩ := by
  have henter : Step ⟨.task (.scope source program), [], m⟩
      ⟨.task (opening source program), [.level], { m with level := m.level + 1 }⟩ := by
    refine (step_task _ [] m).trans (congrArg some ?_)
    rw [start, enter, if_neg (Nat.not_le.2 hlevel), opening]
  have hstop := step_task (opening source program) [.level] { m with level := m.level + 1 }
  have hdeeper : { m with level := m.level + 1 }.cancelled = true := hcancelled
  rw [opening, start_inside_of_cancelled _ _ _ _ _ hdeeper, hblame] at hstop
  refine ⟨_, _, henter, rfl, hstop, rfl, ?_⟩
  -- the frame is removed again, and the level ends
  have hpop : (m.environment.push [[]]).pop? 1 = some m.environment := m.environment.pop?_push [[]]
  refine .head (step_ended _ _ _ _) ?_
  rw [resume, bind_of_ok (remove_of_pop hpop)]
  · exact .single (step_ended _ _ _ _)
  · rintro _ ⟨⟩

/-- There is only one last moment. -/
theorem eq_of_last {c last last' : Moment ε} (h : Steps c last) (hnone : last.next? = none)
    (h' : Steps c last') (hnone' : last'.next? = none) : last = last' := by
  rcases Relation.ReflTransGen.cases_head (steps_last h' hnone' h) with rfl | ⟨c', hstep, -⟩
  · rfl
  · cases hnone.symm.trans hstep

end Moment

/-- Where the first definition of a scope starts, or its result if there is none. -/
def Scope.first (s : Scope) : Nat :=
  (s.definitions.head?.map fun d => d.span.start).getD s.result.span.start

/-- A program that is read starts with its first definition or its result, at a position. -/
theorem Scope.start_of_ofText {source : Text} {program : Scope}
    (h : ofText source = .ok program) :
    program.span.start = program.first ∧ source.HasPosition program.first := by
  have hstart : program.span.start = program.first := by
    obtain ⟨⟨clauses, result⟩, _, -, -, -, -, rfl⟩ := ofText_eq_ok_iff.1 h
    rw [← Grammar.scopeOf_tree]
    rfl
  obtain ⟨hmarked, -⟩ := placed_of_ofText (P := fun _ offset => source.Marked offset)
    (fun _ => id) h
  exact ⟨hstart, hstart ▸ hmarked.hasPosition⟩

open Moment

/-- **A text that is read is interrupted where it starts**, before anything of it is evaluated,
if a request is pending and a level is left. -/
theorem Machine.evaluate_of_cancelled {source : Text} {program : Scope}
    (hread : Scope.ofText source = .ok program) {m : Machine Code ε}
    (hlevel : m.level < levelLimit) (hcancelled : m.cancelled = true) :
    ∃ p, source.position? program.first = some p ∧
      evaluate source m =
        .error (.fault ⟨.completion, "interruption".toList, p.line, p.column⟩)
          { m with cancelled := false } ∧
      ∀ c, Steps ⟨.task (.scope source program), [], m⟩ c → ∀ t, c.focus = .task t →
        t = .scope source program ∨ t = opening source program := by
  obtain ⟨hstart, hposition⟩ := Scope.start_of_ofText hread
  obtain ⟨p, hp⟩ := Option.isSome_iff_exists.1 hposition
  have hblame : (Site.plain source program.span).blame .completion "interruption".toList =
      .fault ⟨.completion, "interruption".toList, p.line, p.column⟩ := by
    rw [← hstart] at hp
    show Stop.at source program.span.start .completion (some "interruption".toList) = _
    rw [Stop.at, Fault.at?, hp]
    rfl
  obtain ⟨c₁, c₂, hstep₁, hfocus₁, hstep₂, hfocus₂, hlast⟩ :=
    steps_of_cancelled hlevel hcancelled hblame
  have hsteps := (hlast.head hstep₂).head hstep₁
  refine ⟨p, hp, ?_, fun c hc t ht => ?_⟩
  · have hevaluate := Machine.steps_evaluate hread m
    rcases e : evaluate source m with ⟨v, m'⟩ | ⟨s, m'⟩ <;> rw [e] at hevaluate
    · cases eq_of_last hevaluate rfl hsteps rfl
    · cases eq_of_last hevaluate rfl hsteps rfl
      rfl
  · rcases Relation.ReflTransGen.cases_head hc with rfl | ⟨c', hstep, hc⟩
    · exact .inl (Focus.task.inj ht).symm
    obtain rfl := rightUnique_step hstep hstep₁
    rcases Relation.ReflTransGen.cases_head hc with rfl | ⟨c', hstep, hc⟩
    · exact .inr (Focus.task.inj (ht.symm.trans hfocus₁))
    obtain rfl := rightUnique_step hstep hstep₂
    -- behind the stop nothing is started
    rcases stop_of_steps hc hfocus₂ with h | ⟨_, _, h⟩
    · cases ht.symm.trans h
    · cases ht.symm.trans h

/-! ### Demands in a row -/

/-- What a host demands of a machine: to be served, or that what is served next stops. -/
inductive Demand where
  | serve (s : Service)
  | cancel

/-- Is it a request to stop? -/
def Demand.isCancel : Demand → Bool
  | serve _ => false
  | cancel => true

/-- Is it an interruption? -/
def interrupted : Except Stop (Value Code) → Bool
  | .error (.fault f) => f.kind = .interruption
  | _ => false

namespace Machine

/-- What a machine answers to demands, one after another, and what it is behind them.  A
crash is the last answer. -/
def answers : List Demand → Machine Code ε → List (Except Stop (Value Code)) × Machine Code ε
  | [], m => ([], m)
  | .cancel :: ds, m => answers ds { m with cancelled := true }
  | .serve s :: ds, m =>
    match s.action m with
    | .ok v m' => (.ok v :: (answers ds m').1, (answers ds m').2)
    | .error (.fault f) m' => (.error (.fault f) :: (answers ds m').1, (answers ds m').2)
    | .error (.crash c) m' => ([.error (.crash c)], m')

/-- **There are no more interruptions than requests**, counting a request that was pending
before, and not one that still is. -/
theorem count_answers (ds : List Demand) (m : Machine Code ε) :
    (answers ds m).1.countP interrupted + (answers ds m).2.cancelled.toNat ≤
      ds.countP Demand.isCancel + m.cancelled.toNat := by
  induction ds generalizing m with
  | nil => exact Nat.le_refl _
  | cons d ds ih =>
    cases d with
    | cancel =>
      have hrest := ih { m with cancelled := true }
      rw [List.countP_cons_of_pos rfl]
      simp only [answers, Bool.toNat_true] at hrest ⊢
      omega
    | serve s =>
      have hheeds := heeds_service s m
      rw [List.countP_cons_of_neg (by simp [Demand.isCancel]), answers]
      rcases e : s.action m with ⟨v, m'⟩ | ⟨f | c, m'⟩
      · have hm' : m'.cancelled = m.cancelled := (ends_of_ok e).1 hheeds
        have hrest := ih m'
        rw [hm'] at hrest
        exact hrest
      · have hrest := ih m'
        rcases (ends_of_error e).1 hheeds with ⟨hkind, hm, hm'⟩ | ⟨hkind, hm'⟩
        · have hinterrupted : interrupted (.error (.fault f)) = true := by simp [interrupted, hkind]
          simp only [List.countP_cons_of_pos hinterrupted, hm, hm', Bool.toNat_true,
            Bool.toNat_false] at hrest ⊢
          omega
        · have hcalm : ¬ interrupted (.error (.fault f)) = true := by
            rw [interrupted, decide_eq_true_eq]
            rintro hinterruption
            rw [hinterruption] at hkind
            exact absurd hkind (by decide)
          simp only [List.countP_cons_of_neg hcalm, hm'] at hrest ⊢
          exact hrest
      · have hm' : m'.cancelled = true → m.cancelled = true := (ends_of_error e).1 hheeds
        have hle : m'.cancelled.toNat ≤ m.cancelled.toNat := by
          rcases e' : m'.cancelled with - | -
          · exact Nat.zero_le _
          · rw [hm' e']
        have hcalm : ¬ interrupted (.error (.crash c)) = true := Bool.false_ne_true
        simp only [List.countP_cons_of_neg hcalm, List.countP_nil]
        omega

/-- **Requests to stop are neither lost nor felt twice.**  A service takes a pending request
away exactly if it comes to an interruption, which it only does if there is one; with a
value or any other fault the request stays as it was, pending or not.  A text that is read
while a request is pending is interrupted at the start of its first definition or result,
before any of them is evaluated.  So over any demands in a row there are no more
interruptions than requests; this counts a request that was pending before them, and not
one that is pending still. -/
theorem requests_are_felt_once (host : ε) :
    (∀ (s : Service) (m : Machine Code ε),
      (∀ v m', s.action m = .ok v m' → m'.cancelled = m.cancelled) ∧
      ∀ f m', s.action m = .error (.fault f) m' →
        if f.kind = .interruption then m.cancelled = true ∧ m'.cancelled = false
        else m'.cancelled = m.cancelled) ∧
    (∀ m : Machine Code ε, Reached host m → m.cancelled = true →
      ∀ source program, Scope.ofText source = .ok program →
        ∃ p, source.position? program.first = some p ∧
          evaluate source m =
            .error (.fault ⟨.completion, "interruption".toList, p.line, p.column⟩)
              { m with cancelled := false } ∧
          ∀ c, Steps ⟨.task (.scope source program), [], m⟩ c → ∀ t, c.focus = .task t →
            t = .scope source program ∨ t = opening source program) ∧
    ∀ (ds : List Demand) (m : Machine Code ε),
      (answers ds m).1.countP interrupted + (answers ds m).2.cancelled.toNat ≤
        ds.countP Demand.isCancel + m.cancelled.toNat := by
  refine ⟨fun s m => ⟨fun v m' e => ?_, fun f m' e => ?_⟩,
    fun m hm hcancelled source program hread => evaluate_of_cancelled hread ?_ hcancelled,
    count_answers⟩
  · exact (ends_of_ok e).1 (heeds_service s m)
  · rcases (ends_of_error e).1 (heeds_service s m) with ⟨hkind, hm, hm'⟩ | ⟨hkind, hm'⟩
    · rw [if_pos hkind]
      exact ⟨hm, hm'⟩
    · rw [if_neg]
      · exact hm'
      · rintro hinterruption
        rw [hinterruption] at hkind
        exact absurd hkind (by decide)
  -- between two services no level is active
  · rw [(restored_of_reached hm).level]
    exact show 0 < levelLimit by decide

/-- A name that is bound nowhere, on the second line of a text, is where the text is
interrupted, and nobody looks for it. -/
theorem requests_are_felt_once_unbound :
    let m : Machine Code Unit := { initial () with cancelled := true }
    let program : Grammar.Program :=
      .mk [] (.mk (.atom ⟨.identifier, "x".toList, 2, 2⟩ (.name "x".toList)) [])
    Reached () m ∧ m.cancelled = true ∧ Scope.ofText "\n x".toList = .ok program.tree ∧
      evaluate "\n x".toList m =
        .error (.fault ⟨.completion, "interruption".toList, 2, 2⟩) (initial ()) := by
  intro m program
  have hm : Reached () m := .cancel .initial
  have hread : Scope.ofText "\n x".toList = .ok program.tree :=
    Scope.ofText_eq_ok_iff.2 ⟨program, ⟨.endOfInput, [], 3, 2⟩, by decide +kernel, rfl,
      by decide +kernel, by decide +kernel, rfl⟩
  obtain ⟨-, hpending, -⟩ := requests_are_felt_once ()
  obtain ⟨p, hp, hevaluate, -⟩ := hpending m hm rfl _ _ hread
  have hp' : Text.position? "\n x".toList program.tree.first = some ⟨2, 2, "x".toList⟩ := by
    decide +kernel
  obtain rfl := Option.some.inj (hp.symm.trans hp')
  exact ⟨hm, rfl, hread, hevaluate⟩

end Machine

end DrawLang
