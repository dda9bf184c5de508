/-
DrawLang/Proofs/Value/Flat.lean

Flat values.  A value is flat if no item of a sequence in it is a sequence, at whatever
depth, functions and what they keep included.  All that a flat value adds to a joined
sequence are its leaves (`Value.Flat.leaves_eq`), and none of them is a sequence.
-/
import DrawLang.Proofs.Value.Within

namespace DrawLang.Value

variable {β : Type}

/-! ### Values without nested sequences -/

/-- No item of a sequence that stands in the value is a sequence. -/
def Flat (v : Value β) : Prop :=
  ∀ vs, (Value.sequence vs).Within v → ∀ w ∈ vs, ∀ ws, w ≠ .sequence ws

theorem Flat.part {v w : Value β} (h : w.Flat) (hpart : Part v w) : v.Flat :=
  fun vs hvs => h vs (hvs.tail hpart)

theorem flat_sequence_iff {vs : List (Value β)} :
    (Value.sequence vs).Flat ↔ ∀ v ∈ vs, v.Flat ∧ ∀ ws, v ≠ .sequence ws := by
  constructor
  · exact fun h v hv => ⟨h.part (.item hv), h vs .refl v hv⟩
  · intro h us hus
    rcases within_sequence hus with heq | ⟨v, hv, hwithin⟩
    · cases heq
      exact fun w hw => (h w hw).2
    · exact (h v hv).1 us hwithin

theorem flat_function_iff {f : Function β} :
    (Value.function f).Flat ↔ ∀ frame ∈ f.closure, Frame.Holds Flat frame := by
  constructor
  · exact fun h frame hframe entry hentry => h.part (.kept hframe hentry)
  · intro h us hus
    rcases within_function hus with heq | ⟨frame, hframe, entry, hentry, hwithin⟩
    · cases heq
    · exact h frame hframe entry hentry us hwithin

theorem flat_of_isPlain {v : Value β} (h : v.IsPlain) : v.Flat := by
  intro us hus
  obtain rfl := within_plain hus h
  exact h.elim

/-! ### Leaves -/

mutual

/-- What is left of a value when all sequences are opened. -/
def leaves : Value β → List (Value β)
  | sequence vs => leavesOfItems vs
  | v => [v]

/-- What is left of some values when all sequences are opened. -/
def leavesOfItems : List (Value β) → List (Value β)
  | [] => []
  | v :: vs => v.leaves ++ leavesOfItems vs

end

theorem leaves_of_not_sequence {v : Value β} (h : ∀ vs, v ≠ .sequence vs) : v.leaves = [v] := by
  cases v with
  | sequence vs => exact absurd rfl (h vs)
  | number | string | color | vector | shape | function | builtin =>
    rw [leaves]
    rintro _ ⟨⟩

/-- **In a flat value opening one level of sequences opens all.** -/
theorem Flat.leaves_eq {v : Value β} (h : v.Flat) : v.leaves = v.spread := by
  cases v with
  | sequence vs =>
    have hitems := flat_sequence_iff.1 h
    rw [leaves, spread]
    clear h
    induction vs with
    | nil => rw [leavesOfItems]
    | cons v vs ih =>
      obtain ⟨hv, hvs⟩ := List.forall_mem_cons.1 hitems
      rw [leavesOfItems, leaves_of_not_sequence hv.2, ih hvs, List.singleton_append]
  | number | string | color | vector | shape | function | builtin =>
    refine leaves_of_not_sequence ?_
    rintro _ ⟨⟩

theorem Flat.of_mem_spread {v w : Value β} (h : v.Flat) (hw : w ∈ v.spread) :
    w.Flat ∧ ∀ ws, w ≠ .sequence ws := by
  cases v with
  | sequence vs => exact flat_sequence_iff.1 h w hw
  | number | string | color | vector | shape | function | builtin =>
    obtain rfl := List.mem_singleton.1 hw
    refine ⟨h, ?_⟩
    rintro _ ⟨⟩

end DrawLang.Value
