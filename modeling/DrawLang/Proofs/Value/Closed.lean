/-
DrawLang/Proofs/Value/Closed.lean

Closed values.  A function is closed if it keeps a closed value for each name
that is free in its literal, its own name aside; a sequence is closed if its
items are.  Nothing is said of what else a function keeps.

A literal that is just being defined by a name may mention that name, and is
closed only when it has it (`ClosedAs`).

Calls of anything but a function make closed values from closed values, since
being closed is inherited (`inherited_closed`).
-/
import DrawLang.Proofs.Environment.Lookup
import DrawLang.Proofs.Value.Inherited

namespace DrawLang

/-- The functions in a value find their free names.  For a function, `meaning`
tells what it keeps for them. -/
inductive Closed : Value Code → Prop
  | number (n : Number) : Closed (.number n)
  | string (t : Text) : Closed (.string t)
  | color (c : Color) : Closed (.color c)
  | sequence {vs : List (Value Code)} (h : ∀ v ∈ vs, Closed v) : Closed (.sequence vs)
  | vector (v : Vector) : Closed (.vector v)
  | shape (s : Shape) : Closed (.shape s)
  | function {f : Function Code} (meaning : Text → Value Code)
    (found : ∀ x, f.Open x → f.name ≠ some x → f.kept.find? x = some (meaning x))
    (closed : ∀ x, f.Open x → f.name ≠ some x → Closed (meaning x)) : Closed (.function f)
  | builtin (b : Builtin) : Closed (.builtin b)

theorem closed_function_iff {f : Function Code} :
    Closed (.function f) ↔
      ∀ x, f.Open x → f.name ≠ some x → ∃ v, f.kept.find? x = some v ∧ Closed v := by
  constructor
  · rintro (- | - | - | - | - | - | ⟨meaning, found, closed⟩) x hopen hname
    exact ⟨meaning x, found x hopen hname, closed x hopen hname⟩
  · intro h
    -- the default does not matter: only names that are found are asked for
    refine .function (fun x => (f.kept.find? x).getD (.function f)) ?_ ?_
    · intro x hopen hname
      obtain ⟨v, hv, -⟩ := h x hopen hname
      rw [hv, Option.getD_some]
    · intro x hopen hname
      obtain ⟨v, hv, hclosed⟩ := h x hopen hname
      rw [hv, Option.getD_some]
      exact hclosed

theorem closed_sequence_iff {vs : List (Value Code)} :
    Closed (.sequence vs) ↔ ∀ v ∈ vs, Closed v :=
  ⟨fun h => by cases h; assumption, .sequence⟩

/-! ### Names that a function is defined by -/

/-- A function that takes a name loses none of those it finds. -/
theorem closed_rename {f : Function Code} (h : Closed (.function f)) (hname : f.name = none)
    (stamp : Nat) (name : Text) : Closed (.function { f with stamp, name := some name }) := by
  rw [closed_function_iff] at h ⊢
  intro x hopen _
  exact h x hopen (hname ▸ nofun)

/-- The value is closed, at the latest when a definition gives it the name `own`. -/
def ClosedAs (own : Option Text) (v : Value Code) : Prop :=
  Closed v ∨ ∃ name f, own = some name ∧ v = .function f ∧ f.name = none ∧
    ∀ stamp, Closed (.function { f with stamp, name := some name })

theorem closedAs_none {v : Value Code} : ClosedAs none v ↔ Closed v := by
  constructor
  · rintro (h | ⟨name, f, ⟨⟩, -⟩)
    exact h
  · exact .inl

/-- A function without a name that keeps closed values for its free names, but for
the one that it is just being defined by. -/
theorem closedAs_of_kept {own : Option Text} {f : Function Code} (hname : f.name = none)
    (h : ∀ x, f.Open x → (∃ v, f.kept.find? x = some v ∧ Closed v) ∨ own = some x) :
    ClosedAs own (.function f) := by
  rcases own with - | own
  · refine .inl (closed_function_iff.2 fun x hopen _ => ?_)
    exact (h x hopen).resolve_right nofun
  · refine .inr ⟨own, f, rfl, rfl, hname, fun stamp => closed_function_iff.2 fun x hopen hne => ?_⟩
    exact (h x hopen).resolve_right hne

/-- What is bound by a definition is closed. -/
theorem closed_named {ε : Type} {name : Text} {v : Value Code} (h : ClosedAs (some name) v)
    (m : Machine Code ε) :
    ∃ w m', Action.named name v m = .ok w m' ∧ m'.environment = m.environment ∧ Closed w := by
  rcases h with h | ⟨_, f, ⟨⟩, rfl, hname, h⟩
  -- a closed value stays so, with the name or without it
  · obtain ⟨w, m', hw, henv, rfl | ⟨f, stamp, rfl, hname, rfl⟩⟩ := Action.named_keeps name v m
    · exact ⟨w, m', hw, henv, h⟩
    · exact ⟨_, m', hw, henv, closed_rename h hname stamp name⟩
  -- a function that waits for its name gets it here
  · refine ⟨_, { m with created := m.created + 1 }, ?_, rfl, h m.created⟩
    simp only [Action.named, hname]
    rfl

/-! ### Calls of anything but a function -/

theorem inherited_closed : Value.Inherited Closed where
  sequence _ := closed_sequence_iff
  plain v hv := by
    cases v with
    | sequence | function => exact hv.elim
    | number | string | color | vector | shape | builtin => constructor

end DrawLang
