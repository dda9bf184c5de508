/-
DrawLang/Proofs/Value/Later.lean

Values of a later machine.  A machine that has made `k` functions before gives
its next functions stamps that are `k` larger than those of a machine that has
made none; `Value.later k` raises all stamps in a value in this way, those in
frames that functions keep included.  A value and what it is later are like
(`Likeness.later`).
-/
import DrawLang.Call
import DrawLang.Proofs.Environment.Map
import DrawLang.Proofs.Value.Likeness

namespace DrawLang

variable {β : Type}

mutual

/-- The function with all stamps raised by `k`. -/
def Function.later (k : Nat) : Function β → Function β
  | ⟨stamp, name, params, closure, body, text⟩ =>
    ⟨stamp + k, name, params, Value.laterFrames k closure, body, text⟩

/-- The value with all stamps raised by `k`. -/
def Value.later (k : Nat) : Value β → Value β
  | .number n => .number n
  | .string t => .string t
  | .color c => .color c
  | .sequence items => .sequence (Value.laterItems k items)
  | .vector v => .vector v
  | .shape s => .shape s
  | .function f => .function (f.later k)
  | .builtin b => .builtin b

/-- The items with all stamps raised by `k`. -/
def Value.laterItems (k : Nat) : List (Value β) → List (Value β)
  | [] => []
  | v :: vs => v.later k :: Value.laterItems k vs

/-- The frames with all stamps raised by `k`. -/
def Value.laterFrames (k : Nat) : List (List (Text × Value β)) → List (List (Text × Value β))
  | [] => []
  | f :: fs => Value.laterBindings k f :: Value.laterFrames k fs

/-- The bindings of a frame with all stamps raised by `k`. -/
def Value.laterBindings (k : Nat) : List (Text × Value β) → List (Text × Value β)
  | [] => []
  | (name, v) :: more => (name, v.later k) :: Value.laterBindings k more

end

variable (k : Nat)

theorem Value.laterItems_eq_map (vs : List (Value β)) :
    Value.laterItems k vs = vs.map (Value.later k) := by
  induction vs with
  | nil => rfl
  | cons v vs ih => rw [Value.laterItems, ih, List.map_cons]

theorem Value.laterBindings_eq_map (f : Frame (Value β)) :
    Value.laterBindings k f = f.mapValues (Value.later k) := by
  induction f with
  | nil => rfl
  | cons e f ih =>
    rcases e with ⟨name, v⟩
    rw [Value.laterBindings, ih]
    rfl

theorem Value.laterFrames_eq_map (fs : List (Frame (Value β))) :
    Value.laterFrames k fs = fs.map (Frame.mapValues (Value.later k)) := by
  induction fs with
  | nil => rfl
  | cons f fs ih => rw [Value.laterFrames, Value.laterBindings_eq_map, ih, List.map_cons]

namespace Function

variable (f : Function β)

theorem name_later : (f.later k).name = f.name := by
  rcases f with ⟨⟩
  rfl

theorem params_later : (f.later k).params = f.params := by
  rcases f with ⟨⟩
  rfl

theorem body_later : (f.later k).body = f.body := by
  rcases f with ⟨⟩
  rfl

theorem text_later : (f.later k).text = f.text := by
  rcases f with ⟨⟩
  rfl

theorem closure_later : (f.later k).closure = f.closure.map (Frame.mapValues (Value.later k)) := by
  rcases f with ⟨stamp, name, params, closure, body, text⟩
  exact Value.laterFrames_eq_map k closure

theorem arity_later : (f.later k).arity = f.arity := by
  rw [arity, params_later, arity]

/-- The frame of a call later is the frame of the call, later. -/
theorem locals_later (args : List (Value β)) :
    (f.later k).locals (args.map (Value.later k))
      = Frame.mapValues (Value.later k) (f.locals args) := by
  have hzip : f.params.zip (args.map (Value.later k))
      = Frame.mapValues (Value.later k) (f.params.zip args) := by
    rw [List.zip_map_right]
    rfl
  rw [locals, locals, params_later, name_later, hzip]
  -- the own name, if there is one, is bound to the function, and later to what it is later
  rcases f.name with - | name
  · exact Frame.insertAll_map (Value.later k) [] _
  · exact Frame.insertAll_map (Value.later k) [(name, .function f)] _

end Function

/-- A value and what it is later. -/
def Likeness.later (k : Nat) : Likeness β β where
  value v v' := v' = v.later k
  function f f' := f' = f.later k
  value_iff v v' := by
    constructor
    · rintro rfl
      rcases v with n | t | c | vs | v | s | f | b
      case sequence =>
        rw [Value.later, Value.laterItems_eq_map]
        refine .sequence ?_
        rw [List.forall₂_map_right_iff, List.forall₂_same]
        exact fun _ _ => rfl
      case function => exact .function rfl
      all_goals constructor
    · intro h
      cases h with
      | sequence h =>
        rw [Value.later, Value.laterItems_eq_map]
        congr 1
        induction h with
        | nil => rfl
        | cons hv _ ih => rw [hv, ih, List.map_cons]
      | function h => rw [h, Value.later]
      | number | string | color | vector | shape | builtin => rfl
  text_eq := by
    rintro f _ rfl
    exact (Function.text_later k f).symm

theorem Likeness.later_forall₂ {vs vs' : List (Value β)} :
    List.Forall₂ (Likeness.later k).value vs vs' ↔ vs' = vs.map (Value.later k) := by
  constructor
  · intro h
    induction h with
    | nil => rfl
    | cons hv _ ih =>
      rw [ih, show _ = _ from hv, List.map_cons]
  · rintro rfl
    rw [List.forall₂_map_right_iff, List.forall₂_same]
    exact fun _ _ => rfl

end DrawLang
