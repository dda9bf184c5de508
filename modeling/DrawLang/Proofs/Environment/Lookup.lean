/-
DrawLang/Proofs/Environment/Lookup.lean

What names mean when frames are put on top of each other, and what they mean in
a call of a function.

Frames on top of each other amount to one long frame (`Frame.find?_flatten`), so
an environment can be read as a single row of bindings in which the first entry
of a name counts.  In a call a name that is no parameter means the function
itself, if it is its own name, and else what the function keeps for it
(`Function.find?_call`).
-/
import Mathlib.Data.List.Forall2
import DrawLang.Evaluation
import DrawLang.Proofs.Tree.Free

namespace DrawLang

variable {α β γ : Type}

/-! ### Frames on top of each other -/

namespace Frame

theorem find?_append (f g : Frame α) (name : Text) :
    Frame.find? (f ++ g) name = (f.find? name).or (g.find? name) := by
  rw [find?, List.find?_append, Option.map_or]
  rfl

theorem find?_flatten (fs : List (Frame α)) (name : Text) :
    Frame.find? fs.flatten name = fs.findSome? (·.find? name) := by
  induction fs with
  | nil => rfl
  | cons f fs ih =>
    rw [List.flatten_cons, find?_append, ih, List.findSome?_cons]
    rcases f.find? name with - | v <;> rfl

/-- Binding names leaves alone what any other name means. -/
theorem find?_insertAll_of_not_mem (f : Frame α) (bindings : List (Text × α)) {name : Text}
    (h : name ∉ bindings.map Prod.fst) :
    Frame.find? (f.insertAll bindings) name = f.find? name := by
  induction bindings generalizing f with
  | nil => rfl
  | cons b bindings ih =>
    rw [List.map_cons, List.mem_cons, not_or] at h
    show Frame.find? (Frame.insertAll (f.insert b.1 b.2) bindings) name = _
    rw [ih _ h.2, find?_insert, if_neg (Ne.symm h.1)]

/-- What holds of related values holds of what a name means behind bindings to
them, if the name is bound there or it holds of what it meant before. -/
theorem find?_insertAll_zip {R : α → γ → Prop} {P : Option α → Option γ → Prop}
    (hP : ∀ v v', R v v' → P (some v) (some v')) {names : List Text} {vs : List α} {vs' : List γ}
    (hvs : List.Forall₂ R vs vs') (hcount : names.length = vs.length) (f : Frame α) (f' : Frame γ)
    {x : Text} (h : x ∈ names ∨ P (f.find? x) (f'.find? x)) :
    P (Frame.find? (f.insertAll (names.zip vs)) x)
      (Frame.find? (f'.insertAll (names.zip vs')) x) := by
  -- of several bindings of a name the last one counts, so the frames vary in the induction
  induction hvs generalizing names f f' with
  | nil =>
    obtain rfl : names = [] := List.length_eq_zero_iff.1 hcount
    exact h.resolve_left List.not_mem_nil
  | @cons v v' vs vs' hv _ ih =>
    rcases names with - | ⟨p, names⟩
    · cases hcount
    · refine ih (Nat.succ.inj hcount) (f.insert p v) (f'.insert p v') ?_
      rw [find?_insert, find?_insert]
      by_cases hp : p = x
      · rw [if_pos hp, if_pos hp]
        exact .inr (hP v v' hv)
      · rw [if_neg hp, if_neg hp]
        exact h.imp_left fun hmem => (List.mem_cons.1 hmem).resolve_left (Ne.symm hp)

end Frame

namespace Environment

theorem find?_insert (e : Environment α) (name other : Text) (v : α) :
    (e.insert name v).find? other = if name = other then some v else e.find? other := by
  by_cases h : name = other
  · rw [if_pos h]
    rcases e with ⟨- | ⟨f, fs⟩, global⟩ <;>
      simp [insert, find?, frames, Frame.find?_insert, h]
  · rw [if_neg h]
    rcases e with ⟨- | ⟨f, fs⟩, global⟩ <;>
      simp [insert, find?, frames, List.findSome?_cons, Frame.find?_insert, h]

theorem find?_eq_flatten (e : Environment α) (name : Text) :
    e.find? name = Frame.find? e.frames.flatten name := by
  rw [Frame.find?_flatten]
  rfl

theorem frames_push (e : Environment α) (fs : List (Frame α)) :
    (e.push fs).frames = fs ++ e.frames := by
  rw [frames, push, frames, List.append_assoc]

theorem find?_push (e : Environment α) (fs : List (Frame α)) (name : Text) :
    (e.push fs).find? name = (Frame.find? fs.flatten name).or (e.find? name) := by
  rw [find?_eq_flatten, frames_push, List.flatten_append, Frame.find?_append, find?_eq_flatten]

end Environment

/-! ### The frame of a call -/

namespace Function

/-- The binding of a function to its own name. -/
def own (f : Function β) : Frame (Value β) :=
  match f.name with
  | some name => [(name, .function f)]
  | none => []

theorem locals_eq (f : Function β) (args : List (Value β)) :
    f.locals args = f.own.insertAll (f.params.zip args) :=
  rfl

theorem find?_own (f : Function β) (name : Text) :
    f.own.find? name = if f.name = some name then some (.function f) else none := by
  rcases e : f.name with - | own
  · simp [Function.own, e, Frame.find?]
  · by_cases h : own = name <;> simp [Function.own, e, Frame.find?, h]

theorem accepts_iff (f : Function β) (count : Nat) :
    f.arity.accepts count = true ↔ f.params.length = count := by
  unfold Function.arity Arity.exactly Arity.accepts
  rw [Bool.and_eq_true, Option.all_some, decide_eq_true_eq, decide_eq_true_eq]
  exact Nat.le_antisymm_iff.symm

theorem names_zip_subset (f : Function β) (args : List (Value β)) {name : Text}
    (h : name ∈ (f.params.zip args).map Prod.fst) : name ∈ f.params := by
  obtain ⟨⟨_, v⟩, hmem, rfl⟩ := List.mem_map.1 h
  exact (List.of_mem_zip hmem).1

/-- A name that is no parameter means the function itself, if it is its own. -/
theorem find?_locals_of_not_param (f : Function β) (args : List (Value β)) {name : Text}
    (h : name ∉ f.params) :
    Frame.find? (f.locals args) name
      = if f.name = some name then some (.function f) else none := by
  rw [locals_eq, Frame.find?_insertAll_of_not_mem _ _ (fun hz => h (f.names_zip_subset args hz)),
    find?_own]

/-- The bindings that a function keeps, as a single row. -/
def kept (f : Function β) : Frame (Value β) := f.closure.flatten

/-- In a call the own name means the function, and any other name that is no
parameter means what was kept for it. -/
theorem find?_call (f : Function β) (args : List (Value β)) (site : Environment (Value β))
    (x : Text) (hx : x ∉ f.params) :
    (f.name = some x →
      (site.push (f.locals args :: f.closure)).find? x = some (.function f)) ∧
    (f.name ≠ some x → ∀ v, f.kept.find? x = some v →
      (site.push (f.locals args :: f.closure)).find? x = some v) := by
  rw [Environment.find?_push, List.flatten_cons, Frame.find?_append,
    find?_locals_of_not_param f args hx]
  constructor
  · intro h
    rw [if_pos h]
    rfl
  · intro h v hv
    have hkept : Frame.find? f.closure.flatten x = some v := hv
    rw [if_neg h, hkept]
    rfl

/-- The name is free in the literal that the function was made from. -/
def Open (f : Function Code) (name : Text) : Prop :=
  name ∉ f.params ∧ f.body.expr.Free name

end Function

/-- A function literal keeps what is bound where it is evaluated. -/
theorem Action.close_keeps {ε : Type} (m : Machine β ε) (params : List Text) (body : β)
    (text : Text) :
    ∃ f m', close params body text m = .ok (.function f) m' ∧ f.params = params ∧ f.body = body ∧
      f.name = none ∧ ∀ x, f.kept.find? x = m.environment.find? x := by
  refine ⟨_, _, rfl, rfl, rfl, rfl, fun x => ?_⟩
  rw [Environment.find?_eq_flatten]
  rfl

end DrawLang
