/-
DrawLang/Proofs/Environment/Holds.lean

Environments whose values have a property.  It is kept by binding a value that has
it and by adding and removing frames, and what a name means has it.  In a call it
is kept if the function and the arguments have it.
-/
import DrawLang.Proofs.Environment.Lookup

namespace DrawLang

variable {α : Type}

/-- All values that are bound have the property. -/
def Frame.Holds (V : α → Prop) (frame : Frame α) : Prop := ∀ entry ∈ frame, V entry.2

/-- All values that are bound have the property. -/
def Environment.Holds (V : α → Prop) (e : Environment α) : Prop := ∀ frame ∈ e.frames, frame.Holds V

variable {V : α → Prop}

namespace Frame

theorem holds_nil : Frame.Holds V [] := List.forall_mem_nil _

theorem holds_insert {frame : Frame α} (h : frame.Holds V) (name : Text) {v : α} (hv : V v) :
    Frame.Holds V (frame.insert name v) := by
  refine List.forall_mem_cons.2 ⟨hv, fun entry hentry => ?_⟩
  exact h entry (List.mem_filter.1 hentry).1

theorem holds_insertAll {frame : Frame α} (h : frame.Holds V) {bindings : List (Text × α)}
    (hbindings : Frame.Holds V bindings) : Frame.Holds V (frame.insertAll bindings) := by
  induction bindings generalizing frame with
  | nil => exact h
  | cons b bindings ih =>
    obtain ⟨hb, hbindings⟩ := List.forall_mem_cons.1 hbindings
    exact ih (holds_insert h b.1 hb) hbindings

end Frame

/-- In a call the function and the arguments are bound. -/
theorem Function.holds_locals {β : Type} {V : Value β → Prop} {f : Function β}
    {args : List (Value β)} (hf : V (.function f)) (hargs : ∀ v ∈ args, V v) :
    Frame.Holds V (f.locals args) := by
  have hown : Frame.Holds V f.own := by
    unfold Function.own
    split
    · exact List.forall_mem_singleton.2 hf
    · exact Frame.holds_nil
  rw [Function.locals_eq]
  refine Frame.holds_insertAll hown fun entry hentry => ?_
  exact hargs entry.2 (List.of_mem_zip hentry).2

namespace Environment

variable {e e' : Environment α}

theorem holds_empty : (Environment.empty : Environment α).Holds V :=
  List.forall_mem_singleton.2 Frame.holds_nil

theorem Holds.find? (h : e.Holds V) {name : Text} {v : α} (hv : e.find? name = some v) : V v := by
  obtain ⟨frame, hframe, hfind⟩ := List.exists_of_findSome?_eq_some hv
  obtain ⟨entry, hentry, rfl⟩ := Option.map_eq_some_iff.1 hfind
  exact h frame hframe entry (List.mem_of_find?_eq_some hentry)

theorem Holds.push (h : e.Holds V) {frames : List (Frame α)}
    (hframes : ∀ frame ∈ frames, frame.Holds V) : (e.push frames).Holds V := by
  rw [Holds, frames_push]
  exact List.forall_mem_append.2 ⟨hframes, h⟩

theorem Holds.insert (h : e.Holds V) (name : Text) {v : α} (hv : V v) :
    (e.insert name v).Holds V := by
  obtain ⟨inner, global⟩ := e
  rcases inner with - | ⟨frame, inner⟩
  · exact List.forall_mem_singleton.2 (Frame.holds_insert (List.forall_mem_singleton.1 h) name hv)
  · obtain ⟨hframe, hinner⟩ := List.forall_mem_cons.1 h
    exact List.forall_mem_cons.2 ⟨Frame.holds_insert hframe name hv, hinner⟩

theorem Holds.pop? (h : e.Holds V) {count : Nat} (he : e.pop? count = some e') : e'.Holds V := by
  unfold Environment.pop? at he
  split at he
  · obtain rfl := Option.some.inj he
    refine fun frame hframe => h frame ?_
    rcases List.mem_append.1 hframe with hmem | hmem
    · exact List.mem_append_left _ (List.mem_of_mem_drop hmem)
    · exact List.mem_append_right _ hmem
  · cases he

end Environment

end DrawLang
