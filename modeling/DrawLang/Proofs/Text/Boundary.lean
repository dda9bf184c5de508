/-
DrawLang/Proofs/Text/Boundary.lean

Offsets with a position.  An offset has one exactly if it is not inside a
character; wherever a text can be cut in two it has one, which is told by the text up to
and including the character at the cut (`position?_append`).
-/
import DrawLang.Text.Position

namespace DrawLang.Text

/-- The offset has a position in the text: it is not inside a character. -/
def HasPosition (source : Text) (offset : Nat) : Prop := (source.position? offset).isSome

instance (source : Text) (offset : Nat) : Decidable (source.HasPosition offset) :=
  inferInstanceAs (Decidable ((source.position? offset).isSome = true))

/-- What is seen at the cut between two parts. -/
theorem through?_append (s t : Text) : through? s.bytes (s ++ t) = some (s ++ t.take 1) := by
  induction s with
  | nil => rcases t with - | ⟨c, t⟩ <;> rfl
  | cons c s ih =>
    obtain ⟨k, hk⟩ := Nat.exists_eq_add_one_of_ne_zero (Nat.ne_of_gt c.utf8Size_pos)
    have hle : c.utf8Size ≤ k + bytes s + 1 := by omega
    have hrest : k + bytes s + 1 - c.utf8Size = bytes s := by omega
    rw [List.cons_append, bytes_cons, hk, Nat.add_right_comm, through?, if_pos hle, hrest, ih]
    rfl

/-- **The position of a cut** is told by what is seen there. -/
theorem position?_append (s t : Text) :
    position? (s ++ t) s.bytes = some ⟨1 + lineEnds (s ++ t.take 1),
      max 1 (lastLine (s ++ t.take 1)).length, lastCharacter (s ++ t.take 1)⟩ := by
  rw [position?, through?_append, Option.map_some]

/-- Between two parts of a text there is a position. -/
theorem hasPosition_append (s t : Text) : (s ++ t).HasPosition s.bytes := by
  rw [HasPosition, position?_append]
  rfl

theorem hasPosition_bytes (t : Text) : t.HasPosition t.bytes := by
  have h := hasPosition_append t []
  rwa [List.append_nil] at h

end DrawLang.Text
