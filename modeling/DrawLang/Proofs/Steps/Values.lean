/-
DrawLang/Proofs/Steps/Values.lean

The values that there are at a moment: those that calls and arguments have come to,
those of what is pending, what something has ended with, and all that is bound.
Where evaluation upholds a property of values, all of them have it
(`Moment.Upheld.values`).
-/
import DrawLang.Proofs.Steps.Upheld

namespace DrawLang

/-- The values in some frames. -/
def boundValues (frames : List (Frame (Value Code))) : List (Value Code) :=
  frames.flatMap fun frame => frame.map Prod.snd

/-- The values of what is to be done. -/
def Task.values : Task → List (Value Code)
  | .expr _ _ | .scope _ _ | .chain _ _ _ | .definitions _ _ _ => []
  | .call _ callee args => callee :: args
  | .lists _ callee _ _ => [callee]
  | .arguments _ callee _ _ args _ _ => callee :: args
  | .inside _ frame frames body => boundValues (frame :: frames) ++ body.values

/-- The values of what is pending. -/
def Pending.values : Pending → List (Value Code)
  | .argument _ callee _ _ args _ _ => callee :: args
  | .lists _ _ _ | .definition _ _ _ _ | .frames _ | .level => []

/-- The values of what is to be done, or the one that something has ended with. -/
def Focus.values : Focus → List (Value Code)
  | .task t => t.values
  | .ended (.ok v) => [v]
  | .ended (.error _) => []

/-- All values that there are at a moment. -/
def Moment.values {ε : Type} (c : Moment ε) : List (Value Code) :=
  c.focus.values ++ c.pending.flatMap Pending.values ++ boundValues c.machine.environment.frames

variable {ε : Type} {P : Text → Nat → Prop} {V : Value Code → Prop} {X : Text → Node → Prop}

theorem holds_boundValues {frames : List (Frame (Value Code))}
    (h : ∀ frame ∈ frames, frame.Holds V) : ∀ v ∈ boundValues frames, V v := by
  intro v hv
  obtain ⟨frame, hframe, hv⟩ := List.mem_flatMap.1 hv
  obtain ⟨entry, hentry, rfl⟩ := List.mem_map.1 hv
  exact h frame hframe entry hentry

theorem Task.Upheld.values {t : Task} (h : t.Upheld P V X) : ∀ v ∈ t.values, V v := by
  induction t with
  | expr | scope | chain | definitions => exact List.forall_mem_nil _
  | call => exact List.forall_mem_cons.2 h.2
  | lists => exact List.forall_mem_singleton.2 h.1
  | arguments =>
    obtain ⟨hcallee, -, -, hargs, -⟩ := h
    exact List.forall_mem_cons.2 ⟨hcallee, hargs⟩
  | inside site frame frames body ih =>
    obtain ⟨-, hframes, hbody⟩ := h
    exact List.forall_mem_append.2 ⟨holds_boundValues hframes, ih hbody⟩

theorem Pending.Upheld.values {p : Pending} (h : p.Upheld P V X) : ∀ v ∈ p.values, V v := by
  cases p with
  | lists | definition | frames | level => exact List.forall_mem_nil _
  | argument => exact Task.Upheld.values h

theorem Focus.Upheld.values {x : Focus} (h : x.Upheld P V X) : ∀ v ∈ x.values, V v := by
  rcases x with t | s | v
  · exact Task.Upheld.values h
  · exact List.forall_mem_nil _
  · exact List.forall_mem_singleton.2 h

/-- **All values that there are at a good moment are good.** -/
theorem Moment.Upheld.values {c : Moment ε} (h : c.Upheld P V X) : ∀ v ∈ c.values, V v := by
  have hpending : ∀ v ∈ c.pending.flatMap Pending.values, V v := by
    intro v hv
    obtain ⟨p, hp, hv⟩ := List.mem_flatMap.1 hv
    exact (h.pending p hp).values v hv
  exact List.forall_mem_append.2
    ⟨List.forall_mem_append.2 ⟨h.focus.values, hpending⟩, holds_boundValues h.environment⟩

end DrawLang
