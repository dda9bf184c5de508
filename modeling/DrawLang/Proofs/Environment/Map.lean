/-
DrawLang/Proofs/Environment/Map.lean

Environments with every value changed by a function.  Names are left alone, so
looking up, binding, adding frames and removing them all commute with it.
-/
import DrawLang.Environment

namespace DrawLang

variable {α γ : Type}

/-- The frame with its values changed. -/
def Frame.mapValues (g : α → γ) (f : Frame α) : Frame γ := List.map (fun e => (e.1, g e.2)) f

namespace Frame

variable (g : α → γ)

theorem find?_map (f : Frame α) (name : Text) :
    Frame.find? (f.mapValues g) name = (f.find? name).map g := by
  simp only [find?, Frame.mapValues, List.find?_map, Option.map_map]
  rfl

theorem has_map (f : Frame α) (name : Text) : Frame.has (f.mapValues g) name = f.has name := by
  rw [has, find?_map, Option.isSome_map, has]

theorem insert_map (f : Frame α) (name : Text) (v : α) :
    Frame.insert (f.mapValues g) name (g v) = Frame.mapValues g (f.insert name v) := by
  simp only [insert, Frame.mapValues, List.map_cons, List.filter_map]
  rfl

theorem insertAll_map (f : Frame α) (bindings : List (Text × α)) :
    Frame.insertAll (f.mapValues g) (Frame.mapValues g bindings)
      = Frame.mapValues g (f.insertAll bindings) := by
  induction bindings generalizing f with
  | nil => rfl
  | cons b bindings ih =>
    show Frame.insertAll (Frame.insert (f.mapValues g) b.1 (g b.2)) (Frame.mapValues g bindings) = _
    rw [insert_map, ih]
    rfl

end Frame

/-- The environment with its values changed. -/
def Environment.map (g : α → γ) (e : Environment α) : Environment γ :=
  ⟨e.inner.map (Frame.mapValues g), e.global.mapValues g⟩

namespace Environment

variable (g : α → γ) (e : Environment α)

theorem frames_map : (e.map g).frames = e.frames.map (Frame.mapValues g) := by
  simp only [frames, map, List.map_append, List.map_cons, List.map_nil]

theorem find?_map (name : Text) : (e.map g).find? name = (e.find? name).map g := by
  rw [find?, find?, frames_map]
  -- the first frame that binds the name is the same one
  induction e.frames with
  | nil => rfl
  | cons f fs ih =>
    rw [List.map_cons, List.findSome?_cons, List.findSome?_cons, Frame.find?_map, ih]
    rcases f.find? name with - | v <;> rfl

theorem hasLocal_map (name : Text) : (e.map g).hasLocal name = e.hasLocal name := by
  rcases e with ⟨- | ⟨f, fs⟩, global⟩
  · exact Frame.has_map g global name
  · exact Frame.has_map g f name

theorem insert_map (name : Text) (v : α) :
    (e.map g).insert name (g v) = (e.insert name v).map g := by
  rcases e with ⟨- | ⟨f, fs⟩, global⟩
  · simp only [map, insert, List.map_nil, Frame.insert_map]
  · simp only [map, insert, List.map_cons, Frame.insert_map]

theorem push_map (frames : List (Frame α)) :
    (e.map g).push (frames.map (Frame.mapValues g)) = (e.push frames).map g := by
  simp only [push, map, List.map_append]

theorem pop?_map (count : Nat) : (e.map g).pop? count = (e.pop? count).map (Environment.map g) := by
  simp only [pop?, map, List.length_map]
  split
  · rw [← List.map_drop]
    rfl
  · rfl

theorem depth_map : (e.map g).depth = e.depth := by
  simp only [depth, map, List.length_map]

end Environment

end DrawLang
