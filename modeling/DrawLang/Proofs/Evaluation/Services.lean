/-
DrawLang/Proofs/Evaluation/Services.lean

What a host asks of a machine, and what is left of it.  A host runs programs
and calls values, and between two of these it may ask for a stop.  Each service
restores the machine, whether it ends in a value or in a fault, so all that can
change over any number of them is how many functions were made, and whether a
request to stop is pending.  A machine with no pending request is therefore as
good as a new one.

Main statement: `services_restore`.
-/
import DrawLang.Proofs.Evaluation.Balance
import DrawLang.Proofs.Evaluation.Later

namespace DrawLang

open DrawLang.Action Machine

variable {ε : Type}

/-- What a host can ask of a machine. -/
inductive Service where
  /-- Run a program whose spans refer to a text. -/
  | run (program : Scope) (source : Text)
  /-- Read a text and run the program. -/
  | evaluate (source : Text)
  /-- Call a value from outside of any program. -/
  | apply (callee : Value Code) (args : List (Value Code))

/-- How the machine serves a request. -/
def Service.action : Service → Action Code ε (Value Code)
  | run program source => Machine.run program source
  | evaluate source => Machine.evaluate source
  | apply callee args => Machine.apply callee args

/-- The machines that a host can be left with: services come to values or to
faults, and requests to stop come at any moment between them. -/
inductive Machine.Reached (host : ε) : Machine Code ε → Prop
  | initial : Reached host (.initial host)
  | value {m m' : Machine Code ε} {v : Value Code} (h : Reached host m) (s : Service)
    (e : s.action m = .ok v m') : Reached host m'
  | fault {m m' : Machine Code ε} {f : Fault} (h : Reached host m) (s : Service)
    (e : s.action m = .error (.fault f) m') : Reached host m'
  | cancel {m : Machine Code ε} (h : Reached host m) : Reached host { m with cancelled := true }

/-! ### Every service restores the machine -/

theorem restores_run (program : Scope) (source : Text) :
    Restores (Machine.run program source : Action Code ε (Value Code)) :=
  leaves_bind restores_get fun m => (balanced_evaluator (levelLimit - m.level)).scope source program

theorem restores_service (s : Service) : Restores (s.action : Action Code ε (Value Code)) := by
  rcases s with ⟨program, source⟩ | source | ⟨callee, args⟩
  · exact restores_run program source
  · show Restores (Machine.evaluate source)
    rw [Machine.evaluate]
    split
    -- a text that is not read leaves the machine alone
    · exact leaves_throw (Stop.hasFrames_at _ _ _ _)
    · exact restores_run _ source
  · refine leaves_bind restores_get fun m => ?_
    exact (balanced_evaluator (levelLimit - m.level)).call _ callee args

/-- Nothing is bound on a machine that a host is left with, and no level is active. -/
theorem restored_of_reached {host : ε} {m : Machine Code ε} (h : Reached host m) :
    Restored (.initial host) m := by
  induction h with
  | initial => exact refl_of Restored _
  | value _ s e ih =>
    have hkept : Restored _ _ := (ends_of_ok e).1 (restores_service s _)
    exact trans_of Restored ih hkept
  | fault _ s e ih =>
    have hkept : Restored _ _ := (ends_of_error e).1 (restores_service s _)
    exact trans_of Restored ih hkept
  | cancel _ ih => exact ⟨ih.environment, ih.level⟩

/-! ### A machine that is as good as a new one -/

/-- Runs that agree come to the same, but for stamps. -/
theorem outcome_of_agree {k : Nat} {F : Machine Code ε → Machine Code ε → Prop}
    {Q : Machine Code ε → Machine Code ε → Prop} {a a' : Action Code ε (Value Code)}
    {m m' : Machine Code ε}
    (h : Agree F noExcuse (fun v v' n n' => v' = v.later k ∧ Q n n') (a m) (a' m')) :
    a'.outcome m' = (a.outcome m).map (Value.later k) := by
  rw [outcome, outcome]
  generalize a m = r, a' m' = r' at h ⊢
  cases h with
  | ok h => rw [h.1]; rfl
  | fault | crash => rfl
  | excused h => exact h.elim

/-- Two machines with equally many levels left run by the same evaluator. -/
theorem agree_run_of_akin {k : Nat} {m m' : Machine Code ε} (hlevel : m'.level = m.level)
    (hm : Akin (Environment.Later k) k m m') (program : Scope) (source : Text) :
    Agree (Akin (Environment.Later k) k) noExcuse
      (fun v v' n n' => v' = v.later k ∧ Akin (Environment.Later k) k n n')
      (Machine.run program source m) (Machine.run program source m') := by
  have hrun := (ageless_evaluator k (levelLimit - m.level)).scope source program m m' hm
  show Agree _ _ _ (m.evaluator.scope source program m) (m'.evaluator.scope source program m')
  rw [Machine.evaluator, Machine.evaluator, hlevel]
  exact hrun

theorem outcome_run_of_reached {host : ε} {m : Machine Code ε} (h : Reached host m)
    (hcalm : m.cancelled = false) (program : Scope) (source : Text) :
    (Machine.run program source).outcome m
      = ((Machine.run program source).outcome (.initial host)).map (Value.later m.created) := by
  have hm := restored_of_reached h
  -- the new machine has made no functions, so this one is later by all that it has made
  have hakin : Akin (Environment.Later m.created) m.created (.initial host) m :=
    ⟨hm.environment, hcalm, (Nat.zero_add _).symm⟩
  exact outcome_of_agree (agree_run_of_akin hm.level hakin program source)

/-- **Every service restores the machine**, and so a machine with no pending
request gives each program the outcome that a new one gives; only the stamps of
the functions in it go on from those made before. -/
theorem services_restore (host : ε) :
    (∀ s : Service, Leaves Restored (s.action : Action Code ε (Value Code))) ∧
    ∀ m, Reached host m → m.cancelled = false →
      (∀ program source, (Machine.run program source).outcome m
        = ((Machine.run program source).outcome (.initial host)).map (Value.later m.created)) ∧
      ∀ source, (Machine.evaluate source).outcome m
        = ((Machine.evaluate source).outcome (.initial host)).map (Value.later m.created) := by
  refine ⟨restores_service, fun m hm hcalm => ⟨outcome_run_of_reached hm hcalm, fun source => ?_⟩⟩
  rw [Machine.evaluate]
  -- what a text is read as has nothing to do with the machine
  rcases Scope.ofText source with mismatch | program
  · rfl
  · exact outcome_run_of_reached hm hcalm program source

/-- A machine on which one program has made a function and another one has
failed on an unknown name is as good as a new one. -/
theorem services_restore_behind_function_and_fault :
    ∃ m : Machine Code Unit, Reached () m ∧ m.cancelled = false ∧ m.created = 1 ∧
      ∀ program source, (Machine.run program source).outcome m
        = ((Machine.run program source).outcome (.initial ())).map (Value.later 1) := by
  have hmade := Reached.value (.initial : Reached () (.initial ()))
    (.run ⟨[], .function [] (.atom (.string []) ⟨2, 4⟩) ⟨0, 4⟩, ⟨0, 4⟩⟩ "()\"\"".toList) rfl
  have hfailed := Reached.fault hmade
    (.run ⟨[], .atom (.name "x".toList) ⟨0, 1⟩, ⟨0, 1⟩⟩ "x".toList) rfl
  exact ⟨_, hfailed, rfl, rfl, ((services_restore ()).2 _ hfailed rfl).1⟩

end DrawLang
