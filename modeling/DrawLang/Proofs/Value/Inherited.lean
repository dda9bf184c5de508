/-
DrawLang/Proofs/Value/Inherited.lean

Properties of values that calls hand down.  A property is inherited if a
sequence has it exactly where its items do, and everything else but functions
has it anyway; of functions it says what it likes.  Calls of anything but a
function then make values with the property from such values
(`Value.Inherited.plan`): they look into functions no more than into anything
that they leave as it is, which is what comparing the call with itself shows.
-/
import DrawLang.Proofs.Invocation.Likeness

namespace DrawLang.Value

variable {β : Type}

/-- The value has no other values in it. -/
def IsPlain : Value β → Prop
  | sequence _ | function _ => False
  | _ => True

/-- The property is one of functions and of the items of sequences. -/
structure Inherited (V : Value β → Prop) : Prop where
  sequence : ∀ vs, V (.sequence vs) ↔ ∀ v ∈ vs, V v
  plain : ∀ v : Value β, v.IsPlain → V v

namespace Inherited

variable {V : Value β → Prop}

theorem eq_of_forall₂ {vs vs' : List (Value β)}
    (h : List.Forall₂ (fun v v' => v' = v ∧ V v) vs vs') : vs' = vs ∧ ∀ v ∈ vs, V v := by
  induction h with
  | nil => exact ⟨rfl, nofun⟩
  | cons hv _ ih =>
    obtain ⟨rfl, hv⟩ := hv
    obtain ⟨rfl, hvs⟩ := ih
    exact ⟨rfl, List.forall_mem_cons.2 ⟨hv, hvs⟩⟩

theorem forall₂_same {vs : List (Value β)} (h : ∀ v ∈ vs, V v) :
    List.Forall₂ (fun v v' => v' = v ∧ V v) vs vs :=
  List.forall₂_same.2 fun v hv => ⟨rfl, h v hv⟩

/-- The same value, with the property. -/
def likeness (h : Inherited V) : Likeness β β where
  value v v' := v' = v ∧ V v
  function f f' := f' = f ∧ V (.function f)
  value_iff v v' := by
    constructor
    · rintro ⟨rfl, hv⟩
      cases v' with
      | sequence vs => exact .sequence (forall₂_same ((h.sequence vs).1 hv))
      | function f => exact .function ⟨rfl, hv⟩
      | number | string | color | vector | shape | builtin => constructor
    · intro halike
      cases halike with
      | sequence hvs =>
        obtain ⟨rfl, hvs⟩ := eq_of_forall₂ hvs
        exact ⟨rfl, (h.sequence _).2 hvs⟩
      | function hf =>
        obtain ⟨rfl, hf⟩ := hf
        exact ⟨rfl, hf⟩
      | number | string | color | vector | shape | builtin => exact ⟨rfl, h.plain _ trivial⟩
  text_eq _ _ hf := by rw [hf.1]

/-- **A call with values that have the property comes to one that has it**, if it
is settled by a plan. -/
theorem plan (h : Inherited V) {callee : Value β} {args : List (Value β)} (hcallee : V callee)
    (hargs : ∀ v ∈ args, V v) (site : Site) {count : Nat} {v : Value β}
    (hplan : callee.plan site args = .ok (count, .ok v)) : V v := by
  have hlike : h.likeness.value callee callee := ⟨rfl, hcallee⟩
  have htally := h.likeness.tally_plan site hlike (forall₂_same hargs)
  rw [hplan] at htally
  rcases htally with ⟨-, hv⟩ | -
  rcases hv with hv | -
  exact hv.2

end Inherited

end DrawLang.Value
