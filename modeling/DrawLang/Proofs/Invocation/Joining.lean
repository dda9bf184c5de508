/-
DrawLang/Proofs/Invocation/Joining.lean

Joining and cutting sequences.  `concat` opens one level of sequences, so joining what was
joined before is joining all of it; `slice` up to a position and `slice` from the next position
on take a sequence apart, so joining undoes cutting.  The end of the first part and the start of
the second one count alike from the front and from the back.  Only the last position of all has
no next one: behind `-1` comes `0`, which as a start is the first position.

Main statement: `joining_undoes_cutting`.
-/
import DrawLang.Proofs.Invocation.Calm
import DrawLang.Proofs.Invocation.Slice
import DrawLang.Proofs.Number.Whole

namespace DrawLang

variable {β : Type}

open Number Value

/-! ### Parts of a sequence -/

namespace Value

variable {items front back : List (Value β)} {k : Int}

/-- Up to a position there are as many items as before the next one. -/
theorem upTo_eq_before (hbound : (items.length : Int) + 1 < wordBound) (hk : k ≠ -1) :
    within items.length (upTo items.length (some (clamped k)))
      = within items.length (before items.length (clamped (k + 1))) := by
  have hpos := wordBound_pos
  unfold upTo before
  dsimp only
  by_cases hneg : k < 0
  · -- from the end: the next position is negative as well
    have hend : clamped k < 0 := by unfold clamped; omega
    have hstart : clamped (k + 1) < 0 := by unfold clamped; omega
    rw [if_pos hend, if_neg hstart.not_gt, if_pos hstart]
    unfold within clamped
    omega
  · -- from the front: the next position is a positive one
    have hend : ¬ clamped k < 0 := by unfold clamped; omega
    have hstart : 0 < clamped (k + 1) := by unfold clamped; omega
    rw [if_neg hend, if_pos hstart]
    unfold within clamped
    omega

theorem cutOut_one (items : List (Value β)) (stop : Option Int) :
    cutOut items 1 stop = items.take (within items.length (upTo items.length stop)) := by
  have hfirst : within items.length (before items.length 1) = 0 := by
    show (min (items.length : Int) (max 0 0)).toNat = 0
    omega
  rw [cutOut, hfirst, List.drop_zero]

theorem cutOut_none (items : List (Value β)) (start : Int) :
    cutOut items start none = items.drop (within items.length (before items.length start)) := by
  have hlast : within items.length (upTo items.length none) = items.length := by
    show (min (items.length : Int) (max 0 items.length)).toNat = _
    omega
  rw [cutOut, hlast, List.take_length]

/-- **What is cut at a position is all there**, in front of the cut and behind it. -/
theorem cutOut_append_cutOut (hbound : (items.length : Int) + 1 < wordBound) (hk : k ≠ -1) :
    cutOut items (clamped 1) (some (clamped k)) ++ cutOut items (clamped (k + 1)) none = items := by
  have hone : clamped 1 = 1 := by decide
  rw [hone, cutOut_one, cutOut_none, upTo_eq_before hbound hk, List.take_append_drop]

/-- Cutting behind the first part gives the first part. -/
theorem cutOut_front (hbound : ((front ++ back).length : Int) + 1 < wordBound) :
    cutOut (front ++ back) (clamped 1) (some (clamped front.length)) = front := by
  have hone : clamped 1 = 1 := by decide
  have hlength : within (front ++ back).length
      (upTo (front ++ back).length (some (clamped front.length))) = front.length := by
    rw [List.length_append] at hbound ⊢
    unfold within upTo clamped
    dsimp only
    split <;> omega
  rw [hone, cutOut_one, hlength, List.take_left]

/-- Cutting behind the first part leaves the second part. -/
theorem cutOut_back (hbound : ((front ++ back).length : Int) + 1 < wordBound) :
    cutOut (front ++ back) (clamped (front.length + 1)) none = back := by
  have hall := cutOut_append_cutOut (k := front.length) hbound (by omega)
  rw [cutOut_front hbound] at hall
  exact List.append_cancel_left hall

end Value

/-! ### Calls -/

namespace Builtin

/-- Joining opens one level of sequences. -/
theorem yields_concat (xs : List (Value β)) :
    Builtin.concat.Yields xs (.sequence (xs.flatMap spread)) := by
  intro ε run site m hm
  exact Action.call_of_calm run site (b := .concat) rfl (i := .concat xs) rfl hm

theorem yields_concat_sequences (front back : List (Value β)) :
    Builtin.concat.Yields [.sequence front, .sequence back] (.sequence (front ++ back)) := by
  have hitems : [Value.sequence front, .sequence back].flatMap spread = front ++ back := by
    rw [List.flatMap_cons, List.flatMap_singleton]
    rfl
  exact hitems ▸ yields_concat [.sequence front, .sequence back]

theorem yields_length (items : List (Value β)) :
    Builtin.length.Yields [.sequence items] (.number (Float.ofNat items.length)) := by
  intro ε run site m hm
  exact Action.call_of_calm run site (b := .length) rfl (i := .length (.sequence items)) rfl hm

variable {first last : Number} {i k : Int}

theorem yields_slice_upTo (hfirst : first.whole? = some i) (hlast : last.whole? = some k)
    (items : List (Value β)) :
    Builtin.slice.Yields [.sequence items, .number first, .number last]
      (.sequence (cutOut items (clamped i) (some (clamped k)))) := by
  intro ε run site m _
  have hstop : (some last).map Number.whole? = (some k).map some := congrArg some hlast
  exact Action.call_slice run site items hfirst hstop m

theorem yields_slice_from (hfirst : first.whole? = some i) (items : List (Value β)) :
    Builtin.slice.Yields [.sequence items, .number first]
      (.sequence (cutOut items (clamped i) none)) := by
  intro ε run site m _
  have hstop : (none : Option Number).map Number.whole? = (none : Option Int).map some := rfl
  exact Action.call_slice run site items hfirst hstop m

end Builtin

/-- **Joining and cutting undo each other.**  Joining two joined sequences is joining all that
they were made of; from the position behind the first of them on there is the second one, and
up to its length there is the first one, even if that is empty.  The length of a sequence is a
number that equals it, as long as that is less than `2 ^ 53`.  And a sequence that is cut in two
at any whole number except `-1` is joined again from its parts.  (A sequence with as many items
as there are positive words does not exist.) -/
theorem joining_undoes_cutting {one : Number} (hone : one.whole? = some 1) :
    (∀ xs ys : List (Value β), ∃ front back : List (Value β), ∃ n : Number,
      Builtin.concat.Yields xs (.sequence front) ∧
      Builtin.concat.Yields ys (.sequence back) ∧
      Builtin.concat.Yields (xs ++ ys) (.sequence (front ++ back)) ∧
      Builtin.concat.Yields [.sequence front, .sequence back] (.sequence (front ++ back)) ∧
      Builtin.length.Yields [.sequence front] (.number n) ∧
      (front.length < 2 ^ 53 → n.whole? = some (front.length : Int)) ∧
      (((front ++ back).length : Int) + 1 < wordBound →
        (∀ next : Number, next.whole? = some (front.length + 1 : Int) →
          Builtin.slice.Yields [.sequence (front ++ back), .number next] (.sequence back)) ∧
        (∀ last : Number, last.whole? = some (front.length : Int) →
          Builtin.slice.Yields [.sequence (front ++ back), .number one, .number last]
            (.sequence front)))) ∧
    (∀ items : List (Value β), (items.length : Int) + 1 < wordBound →
      ∀ (last next : Number) (k : Int), last.whole? = some k → next.whole? = some (k + 1) →
        k ≠ -1 → ∃ front back : Value β,
          Builtin.slice.Yields [.sequence items, .number one, .number last] front ∧
          Builtin.slice.Yields [.sequence items, .number next] back ∧
          Builtin.concat.Yields [front, back] (.sequence items)) := by
  refine ⟨fun xs ys => ?_, fun items hbound last next k hlast hnext hk => ?_⟩
  · have hall := Builtin.yields_concat (xs ++ ys)
    rw [List.flatMap_append] at hall
    refine ⟨xs.flatMap spread, ys.flatMap spread, _, Builtin.yields_concat xs,
      Builtin.yields_concat ys, hall, Builtin.yields_concat_sequences _ _,
      Builtin.yields_length _, whole?_ofNat, fun hbound => ⟨fun next hnext => ?_, ?_⟩⟩
    · have hback := Builtin.yields_slice_from hnext (xs.flatMap spread ++ ys.flatMap spread)
      rwa [cutOut_back hbound] at hback
    · intro last hlast
      have hfront := Builtin.yields_slice_upTo hone hlast (xs.flatMap spread ++ ys.flatMap spread)
      rwa [cutOut_front hbound] at hfront
  · refine ⟨_, _, Builtin.yields_slice_upTo hone hlast items,
      Builtin.yields_slice_from hnext items, ?_⟩
    have hjoined := Builtin.yields_concat_sequences
      (cutOut items (clamped 1) (some (clamped k))) (cutOut items (clamped (k + 1)) none)
    rwa [cutOut_append_cutOut hbound hk] at hjoined

/-- An empty sequence is joined with two strings, and a sequence of two items is cut behind the
fifth one from its end, so that there is nothing in front of the cut. -/
theorem joining_undoes_cutting_short :
    let one : Number := 1
    let items : List (Value Unit) := [.string "a".toList, .sequence [.builtin .concat]]
    one.whole? = some 1 ∧ (items.length : Int) + 1 < wordBound ∧
      Number.whole? (-5) = some (-5) ∧ Number.whole? (-4) = some (-4) ∧
      (∃ front back : List (Value Unit),
        Builtin.concat.Yields [.sequence [], .string "a".toList] (.sequence front) ∧
        Builtin.concat.Yields [.sequence [.string "b".toList]] (.sequence back) ∧
        Builtin.concat.Yields [.sequence [], .string "a".toList, .sequence [.string "b".toList]]
          (.sequence (front ++ back))) ∧
      (∃ front back : Value Unit,
        Builtin.slice.Yields [.sequence items, .number one, .number (-5)] front ∧
        Builtin.slice.Yields [.sequence items, .number (-4)] back ∧
        Builtin.concat.Yields [front, back] (.sequence items)) := by
  intro one items
  have hone : one.whole? = some 1 := by decide +kernel
  have hlength : (items.length : Int) + 1 < wordBound := by decide
  have hlast : Number.whole? (-5) = some (-5) := by decide +kernel
  have hnext : Number.whole? (-4) = some (-4) := by decide +kernel
  obtain ⟨hjoining, hcutting⟩ := joining_undoes_cutting (β := Unit) hone
  obtain ⟨front, back, -, hfront, hback, hall, -⟩ :=
    hjoining [.sequence [], .string "a".toList] [.sequence [.string "b".toList]]
  exact ⟨hone, hlength, hlast, hnext, ⟨front, back, hfront, hback, hall⟩,
    hcutting items hlength (-5) (-4) (-5) hlast hnext (by decide)⟩

end DrawLang
