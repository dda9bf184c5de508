/-
DrawLang/Environment.lean

Environments.  A frame binds names to values; an environment is a stack of
frames above a global frame that is always there.  A name means what the
innermost frame that binds it says.

Binding a name that a frame already has replaces what it meant there, so a
frame has at most one entry for a name (`Frame.find?_insert`).  Removing frames
undoes adding them (`pop?_push`), and the global frame cannot be removed
(`pop?_eq_none_iff`).
-/
import DrawLang.Text.Basic

namespace DrawLang

/-- One level of bindings. -/
abbrev Frame (α : Type) := List (Text × α)

namespace Frame

variable {α : Type}

/-- What a name is bound to. -/
def find? (f : Frame α) (name : Text) : Option α :=
  (List.find? (fun e => e.1 = name) f).map Prod.snd

/-- Does the frame bind this name? -/
def has (f : Frame α) (name : Text) : Bool := (f.find? name).isSome

/-- Bind a name, in place of what it was bound to. -/
def insert (f : Frame α) (name : Text) (value : α) : Frame α :=
  (name, value) :: f.filter (fun e => e.1 ≠ name)

/-- Bind one name after another; of equal names the last one counts. -/
def insertAll (f : Frame α) (bindings : List (Text × α)) : Frame α :=
  bindings.foldl (fun f e => f.insert e.1 e.2) f

/-- The entries in the order of their names. -/
def listing (f : Frame α) : List (Text × α) := f.mergeSort fun a b => Text.precedes a.1 b.1

/-- Dropping the entries of one name leaves the other names alone. -/
theorem find?_filter_ne (f : Frame α) {name other : Text} (h : name ≠ other) :
    Frame.find? (f.filter fun e => e.1 ≠ name) other = f.find? other := by
  have hkey : ∀ e : Text × α, (e.1 ≠ name ∧ e.1 = other) ↔ e.1 = other := by
    grind
  simp only [find?, List.find?_filter, decide_eq_true_eq, hkey]

theorem find?_insert (f : Frame α) (name other : Text) (value : α) :
    (f.insert name value).find? other = if name = other then some value else f.find? other := by
  by_cases h : name = other
  · simp [insert, find?, h]
  · rw [if_neg h, ← find?_filter_ne f h]
    simp [insert, find?, h]

end Frame

/-- A stack of frames, innermost first, above the global frame. -/
structure Environment (α : Type) where
  inner : List (Frame α)
  global : Frame α

namespace Environment

variable {α : Type}

/-- Only the global frame, and nothing in it. -/
def empty : Environment α := ⟨[], []⟩

/-- The number of frames. -/
def depth (e : Environment α) : Nat := e.inner.length + 1

/-- All frames, innermost first. -/
def frames (e : Environment α) : List (Frame α) := e.inner ++ [e.global]

/-- The innermost frame. -/
def innermost (e : Environment α) : Frame α := e.inner.head?.getD e.global

/-- What a name means: the innermost frame that binds it decides. -/
def find? (e : Environment α) (name : Text) : Option α :=
  e.frames.findSome? (·.find? name)

/-- Does the innermost frame bind this name? -/
def hasLocal (e : Environment α) (name : Text) : Bool := e.innermost.has name

/-- Does any frame bind this name? -/
def has (e : Environment α) (name : Text) : Bool := e.frames.any (·.has name)

/-- Bind a name in the innermost frame. -/
def insert (e : Environment α) (name : Text) (value : α) : Environment α :=
  match e.inner with
  | [] => { e with global := e.global.insert name value }
  | f :: fs => { e with inner := f.insert name value :: fs }

/-- Add frames, given innermost first. -/
def push (e : Environment α) (frames : List (Frame α)) : Environment α :=
  { e with inner := frames ++ e.inner }

/-- Remove frames from the top, if there are so many above the global one. -/
def pop? (e : Environment α) (count : Nat) : Option (Environment α) :=
  if count ≤ e.inner.length then some { e with inner := e.inner.drop count } else none

theorem pop?_push (e : Environment α) (frames : List (Frame α)) :
    (e.push frames).pop? frames.length = some e := by
  simp [push, pop?]

theorem pop?_eq_none_iff (e : Environment α) (count : Nat) :
    e.pop? count = none ↔ e.depth ≤ count := by
  unfold pop? depth
  split <;> simp <;> omega

end Environment

end DrawLang
