/-
DrawLang/Proofs/Value/Within.lean

Values within values.  The items of a sequence stand in it, and so do the values
that a function keeps in the function.  A property of functions that all those
within a value have is one that calls hand down (`Value.inherited_eachFunction`).
-/
import Mathlib.Logic.Relation
import DrawLang.Proofs.Environment.Holds
import DrawLang.Proofs.Value.Inherited

namespace DrawLang.Value

variable {β : Type}

/-- The first value is an item of the second one or is kept by it. -/
inductive Part : Value β → Value β → Prop
  | item {v : Value β} {vs : List (Value β)} (h : v ∈ vs) : Part v (.sequence vs)
  | kept {f : Function β} {frame : List (Text × Value β)} {entry : Text × Value β}
    (hframe : frame ∈ f.closure) (hentry : entry ∈ frame) : Part entry.2 (.function f)

/-- The first value is the second one or stands in it, at any depth. -/
def Within : Value β → Value β → Prop := Relation.ReflTransGen Part

theorem within_sequence {v : Value β} {vs : List (Value β)} (h : v.Within (.sequence vs)) :
    v = .sequence vs ∨ ∃ w ∈ vs, v.Within w := by
  rcases h.cases_tail with heq | ⟨w, hw, hpart⟩
  · exact .inl heq.symm
  · cases hpart with
    | item hmem => exact .inr ⟨w, hmem, hw⟩

theorem within_function {v : Value β} {f : Function β} (h : v.Within (.function f)) :
    v = .function f ∨ ∃ frame ∈ f.closure, ∃ entry ∈ frame, v.Within entry.2 := by
  rcases h.cases_tail with heq | ⟨w, hw, hpart⟩
  · exact .inl heq.symm
  · cases hpart with
    | kept hframe hentry => exact .inr ⟨_, hframe, _, hentry, hw⟩

theorem within_plain {v w : Value β} (h : v.Within w) (hw : w.IsPlain) : v = w := by
  rcases h.cases_tail with heq | ⟨u, -, hpart⟩
  · exact heq.symm
  · cases hpart with
    | item => exact hw.elim
    | kept => exact hw.elim

/-! ### Functions within values -/

/-- All functions within the value have the property. -/
def EachFunction (G : Function β → Prop) (v : Value β) : Prop :=
  ∀ f, (Value.function f).Within v → G f

variable {G : Function β → Prop}

theorem EachFunction.part {v w : Value β} (h : w.EachFunction G) (hpart : Part v w) :
    v.EachFunction G :=
  fun f hf => h f (hf.tail hpart)

theorem eachFunction_sequence_iff {vs : List (Value β)} :
    (Value.sequence vs).EachFunction G ↔ ∀ v ∈ vs, v.EachFunction G := by
  constructor
  · exact fun h v hv => h.part (.item hv)
  · intro h f hf
    rcases within_sequence hf with heq | ⟨v, hv, hwithin⟩
    · cases heq
    · exact h v hv f hwithin

theorem eachFunction_function_iff {f : Function β} :
    (Value.function f).EachFunction G ↔
      G f ∧ ∀ frame ∈ f.closure, Frame.Holds (EachFunction G) frame := by
  constructor
  · intro h
    exact ⟨h f .refl, fun frame hframe entry hentry => h.part (.kept hframe hentry)⟩
  · rintro ⟨hf, hkept⟩ g hg
    rcases within_function hg with heq | ⟨frame, hframe, entry, hentry, hwithin⟩
    · cases heq
      exact hf
    · exact hkept frame hframe entry hentry g hwithin

theorem eachFunction_of_isPlain {v : Value β} (h : v.IsPlain) : v.EachFunction G := by
  intro f hf
  obtain rfl := within_plain hf h
  exact h.elim

/-- **Calls hand down what all functions within values have.** -/
theorem inherited_eachFunction : Inherited (EachFunction G) where
  sequence _ := eachFunction_sequence_iff
  plain _ := eachFunction_of_isPlain

end DrawLang.Value
