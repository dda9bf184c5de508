/-
DrawLang/Proofs/Text/Joined.lean

Lines and columns in a text that is put together.  Behind a line end the last line is
that of the part behind it alone, and so are the columns (`Text.lastLine_behind`); the
line ends up to a line feed are added to those behind it (`Text.lineEnds_feed`).
-/
import DrawLang.Proofs.Text.Boundary

namespace DrawLang.Text

/-- A cut that leaves the same bytes in front is the same cut. -/
theorem append_inj_of_bytes {s s' t t' : Text} (h : s ++ t = s' ++ t')
    (hbytes : s.bytes = s'.bytes) : s = s' ∧ t = t' := by
  have htake := takeBytes?_append s t
  rw [h, hbytes, takeBytes?_append] at htake
  obtain rfl := Option.some.inj htake
  exact ⟨rfl, List.append_cancel_left h⟩

/-- A line feed ends a line, whatever follows. -/
theorem lineEnds_feed (u v : Text) :
    lineEnds (u ++ '\n' :: v) = lineEnds (u ++ ['\n']) + lineEnds v := by
  induction u with
  | nil => rfl
  | cons c u ih =>
    have hhead : (u ++ '\n' :: v).head? = (u ++ ['\n']).head? := by
      rcases u with - | ⟨d, u⟩ <;> rfl
    rw [List.cons_append, List.cons_append, lineEnds, lineEnds, hhead, ih, Nat.add_assoc]

/-- The last line behind the end of a line does not tell of the lines before it. -/
theorem lastLine_behind {c : Char} (hc : ¬ isInLine c) (u v : Text) :
    lastLine (u ++ c :: v) = lastLine v := by
  have hstop : ∀ w : Text, (w ++ c :: u.reverse).takeWhile isInLine = w.takeWhile isInLine := by
    intro w
    induction w with
    | nil => exact List.takeWhile_cons_of_neg hc
    | cons d w ih =>
      rw [List.cons_append, List.takeWhile_cons, List.takeWhile_cons, ih]
  rw [lastLine, lastLine, List.reverse_append, List.reverse_cons, List.append_assoc,
    List.singleton_append, hstop]

end DrawLang.Text
