/-
DrawLang/Proofs/Evaluation/Flat.lean

Sequences are never nested.  Evaluation keeps values flat (`upkeep_flat`): literals keep
what is bound, names change nothing within a function, and calls make flat values of flat
values.  So all values that there are at any moment are flat, if what is there at the
first one is.

For flat values there is nothing left to open behind one level of a sequence, and so
`concat` flattens completely (`Moment.concat_flattens`); and an item of a sequence is none
(`Moment.item_is_no_sequence`).

Main statement: `sequences_are_never_nested`.
-/
import DrawLang.Proofs.Evaluation.Services
import DrawLang.Proofs.Invocation.Made
import DrawLang.Proofs.Steps.Termination
import DrawLang.Proofs.Steps.Values

namespace DrawLang

open DrawLang.Action Moment

variable {ε : Type}

/-! ### Evaluation keeps values flat -/

/-- Wherever a program stands and whatever it is, evaluation keeps values flat. -/
theorem upkeep_flat : Upkeep (fun _ _ => True) Value.Flat (fun _ _ => True) where
  start _ := trivial
  definition _ _ _ := ⟨trivial, trivial⟩
  child _ _ := trivial
  plain _ := Value.flat_of_isPlain
  literal _ _ _ hframes := Value.flat_function_iff.2 hframes
  rename hf _ _ := by
    have hkept := Value.flat_function_iff.1 hf
    exact Value.flat_function_iff.2 hkept
  body _ := trivial
  kept hf := Value.flat_function_iff.1 hf
  plan hcallee hargs site _ _ hplan :=
    (Value.madeOf_plan site _ _ _ _ hplan).flat (List.forall_mem_cons.2 ⟨hcallee, hargs⟩)

/-- What is to be done is good if its values are flat. -/
theorem Task.upheld_of_flat {t : Task} (h : ∀ v ∈ t.values, v.Flat) :
    t.Upheld (fun _ _ => True) Value.Flat (fun _ _ => True) := by
  induction t with
  | expr | scope => trivial
  | call => exact ⟨⟨trivial, fun _ _ => trivial⟩, List.forall_mem_cons.1 h⟩
  | chain => exact ⟨trivial, fun _ _ _ _ => trivial⟩
  | lists => exact ⟨List.forall_mem_singleton.1 h, trivial, fun _ _ _ _ => trivial⟩
  | arguments =>
    obtain ⟨hcallee, hargs⟩ := List.forall_mem_cons.1 h
    exact ⟨hcallee, trivial, fun _ _ _ _ => trivial, hargs, fun _ _ => trivial⟩
  | definitions => exact ⟨fun _ _ => ⟨trivial, trivial, trivial⟩, trivial⟩
  | inside site frame frames body ih =>
    obtain ⟨hframes, hbody⟩ := List.forall_mem_append.1 h
    refine ⟨⟨trivial, fun _ _ => trivial⟩, fun f hf entry hentry => ?_, ih hbody⟩
    exact hframes entry.2 (List.mem_flatMap.2 ⟨f, hf, List.mem_map_of_mem hentry⟩)

namespace Moment

/-! ### Calls with flat values -/

/-- A call of anything but a function comes to what its plan yields. -/
theorem plan_of_step {c c' : Moment ε} (hstep : Step c c') {site : Site} {callee : Value Code}
    {args : List (Value Code)} (hfocus : c.focus = .task (.call site callee args))
    (hplain : ∀ f, callee ≠ .function f) {v : Value Code} (hv : c'.focus = .ended (.ok v)) :
    ∃ count, callee.plan site args = .ok (count, .ok v) := by
  obtain ⟨focus, pending, m⟩ := c
  obtain rfl : focus = _ := hfocus
  obtain rfl : start pending m (.call site callee args) = c' := Option.some.inj hstep
  rw [start_call_of_plain pending m site args hplain, call_eq_settle none site callee args hplain]
    at hv
  rcases e : settle site (callee.plan site args) m with ⟨w, m'⟩ | ⟨s, m'⟩ <;> rw [e] at hv
  · obtain rfl := Except.ok.inj (Focus.ended.inj hv)
    exact plan_of_settle e
  · cases Focus.ended.inj hv

/-- **With flat arguments `concat` flattens completely.** -/
theorem concat_flattens {c c' : Moment ε} (hstep : Step c c') {site : Site}
    {args : List (Value Code)} (hfocus : c.focus = .task (.call site (.builtin .concat) args))
    (hargs : ∀ v ∈ args, v.Flat) {v : Value Code} (hv : c'.focus = .ended (.ok v)) :
    v = .sequence (args.flatMap Value.leaves) := by
  obtain ⟨count, hplan⟩ := plan_of_step hstep hfocus nofun hv
  have hleaves : args.flatMap Value.leaves = args.flatMap Value.spread :=
    List.flatMap_congr fun v hv => (hargs v hv).leaves_eq
  rw [hleaves]
  cases hplan
  rfl

/-- **With a flat sequence an item is no sequence**, and only a default can be one. -/
theorem item_is_no_sequence {c c' : Moment ε} (hstep : Step c c') {site : Site}
    {items args : List (Value Code)} (hfocus : c.focus = .task (.call site (.sequence items) args))
    (hitems : (Value.sequence items).Flat) {v : Value Code} (hv : c'.focus = .ended (.ok v)) :
    (v ∈ items ∧ ∀ ws, v ≠ .sequence ws) ∨ ∃ position i, args = [position, v] ∧
      site.integer 0 position = .ok i ∧ itemAt? items i = none := by
  obtain ⟨count, hplan⟩ := plan_of_step hstep hfocus nofun hv
  rw [Value.plan] at hplan
  rcases hitem : site.item items args with s | w <;> rw [hitem] at hplan <;> cases hplan
  obtain ⟨position, more, i, rfl, -, hi, hat | ⟨hat, rfl⟩⟩ := Site.exists_of_item hitem
  · have hmem := Value.mem_of_itemAt? hat
    exact .inl ⟨hmem, (Value.flat_sequence_iff.1 hitems v hmem).2⟩
  · exact .inr ⟨position, i, rfl, hi, hat⟩

end Moment

/-! ### Services -/

/-- The values that a host hands in. -/
def Service.values : Service → List (Value Code)
  | run _ _ | evaluate _ => []
  | apply callee args => callee :: args

/-- At the last moment of a task there is what it comes to. -/
theorem Task.flat_of_action {t : Task} {m m' : Machine Code ε} (hm : m.environment.Holds Value.Flat)
    (ht : ∀ v ∈ t.values, v.Flat) {v : Value Code} (h : t.action m.evaluator m = .ok v m') :
    v.Flat := by
  have hsteps := Evaluator.reaches_action (walks_evaluator (levelLimit - m.level) m.level rfl)
    (balanced_evaluator _) t m rfl []
  change Steps _ (after [] (t.action m.evaluator m)) at hsteps
  rw [h] at hsteps
  exact (upheld_of_steps upkeep_flat hsteps
    ⟨Task.upheld_of_flat ht, List.forall_mem_nil _, hm⟩).focus

/-- **A service comes to a flat value**, given flat values. -/
theorem Service.flat_of_action {s : Service} {m m' : Machine Code ε}
    (hm : m.environment.Holds Value.Flat) (hs : ∀ v ∈ s.values, v.Flat) {v : Value Code}
    (h : s.action m = .ok v m') : v.Flat := by
  cases s with
  | run program source =>
    exact Task.flat_of_action (t := .scope source program) hm (List.forall_mem_nil _) h
  | evaluate source =>
    change Machine.evaluate source m = .ok v m' at h
    rw [Machine.evaluate] at h
    rcases e : Scope.ofText source with r | program <;> rw [e] at h
    · cases h
    · exact Task.flat_of_action (t := .scope source program) hm (List.forall_mem_nil _) h
  | apply callee args => exact Task.flat_of_action (t := .call _ callee args) hm hs h

/-! ### Main statement -/

/-- **Sequences are never nested.**  Whatever is evaluated where all that is bound is flat,
a program or a call of a flat value with flat arguments, goes on step by step to what it comes
to.  All values that there are at any moment on the way are flat: what is called and what
with, what is bound and kept by functions, what something has come to.  So wherever `concat` is
called on the way it flattens completely; and where a sequence is called it yields no
sequence, unless there is no item at the position and the default is one.  What a host is
left with is flat as well, if what it hands in is. -/
theorem sequences_are_never_nested (m : Machine Code ε) (hm : m.environment.Holds Value.Flat) :
    (∀ t : Task, (∀ v ∈ t.values, v.Flat) →
      (∃ last, Steps ⟨.task t, [], m⟩ last ∧ last.next? = none ∧
        last.focus = .ended (t.outcome m)) ∧
      ∀ c, Steps ⟨.task t, [], m⟩ c →
        (∀ v ∈ c.values, v.Flat) ∧
        ∀ site args c' v, Step c c' → c'.focus = .ended (.ok v) →
          (c.focus = .task (.call site (.builtin .concat) args) →
            v = .sequence (args.flatMap Value.leaves)) ∧
          ∀ items, c.focus = .task (.call site (.sequence items) args) →
            (v ∈ items ∧ ∀ ws, v ≠ .sequence ws) ∨ ∃ position i, args = [position, v] ∧
              site.integer 0 position = .ok i ∧ itemAt? items i = none) ∧
    ∀ s : Service, (∀ v ∈ s.values, v.Flat) → ∀ v m', s.action m = .ok v m' →
      v.Flat ∧ m'.environment.Holds Value.Flat := by
  refine ⟨fun t ht => ⟨t.steps_outcome m, fun c hc => ?_⟩, fun s hs v m' h => ?_⟩
  · have hupheld := upheld_of_steps upkeep_flat hc
      ⟨Task.upheld_of_flat ht, List.forall_mem_nil _, hm⟩
    have hcall : ∀ site callee args, c.focus = .task (.call site callee args) →
        callee.Flat ∧ ∀ v ∈ args, v.Flat := by
      intro site callee args hfocus
      have hfocus' := hupheld.focus
      rw [hfocus] at hfocus'
      exact hfocus'.2
    refine ⟨hupheld.values, fun site args c' v hstep hv =>
      ⟨fun hfocus => ?_, fun items hfocus => ?_⟩⟩
    · exact concat_flattens hstep hfocus (hcall _ _ _ hfocus).2 hv
    · exact item_is_no_sequence hstep hfocus (hcall _ _ _ hfocus).1 hv
  · have hrestored : Machine.Restored m m' := (ends_of_ok h).1 (restores_service s m)
    refine ⟨s.flat_of_action hm hs h, ?_⟩
    rw [hrestored.environment]
    exact hm

/-- A sequence and a value that is none are joined to one sequence, which is flat. -/
theorem sequences_are_never_nested_joined :
    let args : List (Value Code) := [.sequence [.string "ä".toList], .builtin .length]
    let v : Value Code := .sequence [.string "ä".toList, .builtin .length]
    (Machine.initial () : Machine Code Unit).environment.Holds Value.Flat ∧
      (∀ a ∈ args, a.Flat) ∧
      Machine.apply (.builtin .concat) args (Machine.initial ()) = .ok v (Machine.initial ()) ∧
      v.Flat ∧ v = .sequence (args.flatMap Value.leaves) := by
  intro args v
  have hm : (Machine.initial () : Machine Code Unit).environment.Holds Value.Flat :=
    Environment.holds_empty
  have hargs : ∀ a ∈ args, a.Flat := by
    refine List.forall_mem_cons.2 ⟨Value.flat_sequence_iff.2 ?_, List.forall_mem_singleton.2 ?_⟩
    · exact List.forall_mem_singleton.2 ⟨Value.flat_of_isPlain trivial, nofun⟩
    · exact Value.flat_of_isPlain trivial
  have hgiven : ∀ a ∈ Value.builtin .concat :: args, a.Flat :=
    List.forall_mem_cons.2 ⟨Value.flat_of_isPlain trivial, hargs⟩
  have hresult : Machine.apply (.builtin .concat) args (Machine.initial ()) =
      .ok v (Machine.initial ()) := rfl
  obtain ⟨htasks, hservices⟩ :=
    sequences_are_never_nested (Machine.initial () : Machine Code Unit) hm
  obtain ⟨-, hmoments⟩ := htasks (.call .detached (.builtin .concat) args) hgiven
  obtain ⟨hjoined, -⟩ := (hmoments _ .refl).2 .detached args _ v (step_task _ _ _) rfl
  exact ⟨hm, hargs, hresult, (hservices (.apply _ args) hgiven v _ hresult).1, hjoined rfl⟩

end DrawLang
