/-
DrawLang/Proofs/Invocation/Slice.lean

What `slice` selects.  Its positions may be any whole numbers.  Positions count from one, or
from the end if they are negative; a start at zero is the first position, and an end at zero is
in front of it.  The operation makes words of them first, computes how many items there are
before the start and up to the end, and takes as many off.  Since a sequence has fewer items than
there are words, a position that is not a word lies as far outside as the nearest one that is.

Main statement: `slice_selects_positions`.
-/
import DrawLang.Proofs.Invocation.Positions

namespace DrawLang

variable {β ε α : Type}

open Number

namespace Value

/-! ### Positions -/

/-- The position that a whole number tells: it counts from one, or from the end. -/
def position (length zero k : Int) : Int :=
  if 0 < k then k else if k < 0 then length + 1 + k else zero

/-- The first position of a slice. -/
def firstPosition (length k : Int) : Int := position length 1 k

/-- The last position of a slice, which is that of the last item if it is missing. -/
def lastPosition (length : Int) : Option Int → Int
  | none => length
  | some k => position length 0 k

/-- The items whose positions, counted from one, are neither before the first nor behind the
last one. -/
def between (items : List (Value β)) (first last : Int) : List (Value β) :=
  ((items.zipIdx 1).filter fun e => first ≤ e.2 ∧ e.2 ≤ last).map Prod.fst

/-- Picking a range of indices takes items off on both sides. -/
theorem filter_zipIdx {p : Nat → Prop} [DecidablePred p] {items : List α} {s a b : Nat}
    (hp : ∀ q, s ≤ q → q < s + items.length → (p q ↔ s + a ≤ q ∧ q < s + b)) :
    ((items.zipIdx s).filter fun e => p e.2).map Prod.fst = (items.take b).drop a := by
  induction items generalizing s a b with
  | nil => simp
  | cons x xs ih =>
    have hhead := hp s (Nat.le_refl s) (by simp)
    have hrest : ∀ a' b', (∀ q, s + 1 ≤ q → (s + a ≤ q ∧ q < s + b ↔
        s + 1 + a' ≤ q ∧ q < s + 1 + b')) →
        ((xs.zipIdx (s + 1)).filter fun e => p e.2).map Prod.fst = (xs.take b').drop a' :=
      fun a' b' h => ih fun q hq hlt =>
        (hp q (by omega) (by rw [List.length_cons]; omega)).trans (h q hq)
    rw [List.zipIdx_cons, List.filter_cons]
    rcases b with - | b
    · have hnone : ¬ p s := fun h => by have := hhead.1 h; omega
      rw [if_neg (by simpa using hnone), hrest a 0 (fun q hq => by omega)]
      simp
    · rcases a with - | a
      · have hsome : p s := hhead.2 (by omega)
        rw [if_pos (by simpa using hsome), List.map_cons, hrest 0 b (fun q hq => by omega)]
        rfl
      · have hnone : ¬ p s := fun h => by have := hhead.1 h; omega
        rw [if_neg (by simpa using hnone), hrest a b (fun q hq => by omega)]
        rfl

/-! ### Slices -/

variable {length k q : Int}

/-- The items before a start are those in front of its position. -/
theorem firstPosition_le_iff (hbound : length + 1 < wordBound) (hq : 1 ≤ q) (hle : q ≤ length) :
    firstPosition length k ≤ q ↔ within length (before length (clamped k)) < q := by
  unfold firstPosition position within before clamped
  split <;> split <;> omega

/-- The items up to an end are those as far as its position. -/
theorem le_lastPosition_iff (hbound : length + 1 < wordBound) (hq : 1 ≤ q) (hle : q ≤ length)
    (stop : Option Int) :
    q ≤ lastPosition length stop ↔ q ≤ within length (upTo length (stop.map clamped)) := by
  rcases stop with - | k
  · show q ≤ length ↔ q ≤ within length length
    unfold within
    omega
  · show q ≤ position length 0 k ↔ q ≤ within length (upTo length (some (clamped k)))
    unfold position within upTo clamped
    dsimp only
    split <;> split <;> omega

/-- **A slice consists of the items between its positions.** -/
theorem cutOut_eq_between {items : List (Value β)} (hbound : (items.length : Int) + 1 < wordBound)
    (k : Int) (stop : Option Int) :
    cutOut items (clamped k) (stop.map clamped)
      = between items (firstPosition items.length k) (lastPosition items.length stop) := by
  have hrange : ∀ q : Nat, 1 ≤ q → q < 1 + items.length →
      (firstPosition items.length k ≤ q ∧ q ≤ lastPosition items.length stop ↔
        1 + within items.length (before items.length (clamped k)) ≤ q ∧
          q < 1 + within items.length (upTo items.length (stop.map clamped))) := by
    intro q hq hlt
    have hfirst := firstPosition_le_iff (k := k) (q := q) hbound (by omega) (by omega)
    have hlast := le_lastPosition_iff (q := q) hbound (by omega) (by omega) stop
    omega
  exact (filter_zipIdx hrange).symm

end Value

open Value

/-! ### Calls -/

theorem Site.integer_of_whole (site : Site) (i : Nat) {n : Number} {k : Int}
    (h : n.whole? = some k) : site.integer i (.number n : Value β) = .ok (clamped k) := by
  have hnumber : site.number i (.number n : Value β) = .ok n := rfl
  simp only [integer, hnumber, h]

/-- A slice at whole numbers is a slice at the nearest words. -/
theorem Action.call_slice (run : Option (β → Action β ε (Value β))) (site : Site)
    (items : List (Value β)) {start : Number} {k : Int} (hstart : start.whole? = some k)
    {stop : Option Number} {l : Option Int} (hstop : stop.map Number.whole? = l.map some)
    (m : Machine β ε) :
    call run site (.builtin .slice)
        (.sequence items :: .number start :: (stop.map Value.number).toList) m
      = .ok (.sequence (cutOut items (clamped k) (l.map clamped))) m := by
  rcases stop with - | stop <;> rcases l with - | l
  case none.none =>
    show (check (site.integer 1 (.number start)) >>= _ : Action β ε (Value β)) m = _
    rw [site.integer_of_whole 1 hstart]
    rfl
  case some.some =>
    have hstop' : stop.whole? = some l := Option.some.inj hstop
    show (check (site.integer 1 (.number start)) >>= fun start =>
      check ((site.integer 2 (.number stop)).map some) >>= _ : Action β ε (Value β)) m = _
    rw [site.integer_of_whole 1 hstart, site.integer_of_whole 2 hstop']
    rfl
  all_goals cases hstop

/-- **A slice selects the items between its positions.**  The positions are whole numbers of any
size, and the end may be missing.  The call comes to the items, in their order, that are neither
before the first position nor behind the last one, and no word overflows on the way.  (A
sequence with as many items as there are positive words does not exist.) -/
theorem slice_selects_positions {items : List (Value β)}
    (hlength : (items.length : Int) + 1 < wordBound) {start : Number} {k : Int}
    (hstart : start.whole? = some k) {stop : Option Number} {l : Option Int}
    (hstop : stop.map Number.whole? = l.map some) :
    (∀ (run : Option (β → Action β ε (Value β))) (site : Site) (m : Machine β ε),
      Action.call run site (.builtin .slice)
          (.sequence items :: .number start :: (stop.map Value.number).toList) m
        = .ok (.sequence (between items (firstPosition items.length k)
            (lastPosition items.length l))) m) ∧
    cutOutInWords? items (clamped k) (l.map clamped)
      = some (between items (firstPosition items.length k) (lastPosition items.length l)) := by
  have hstops : ∀ i ∈ l.map clamped, IsWord i := by
    intro i hi
    obtain ⟨j, -, rfl⟩ := Option.map_eq_some_iff.1 hi
    exact isWord_clamped j
  rw [cutOutInWords?_eq (by omega) (isWord_clamped k) hstops, ← cutOut_eq_between hlength]
  exact ⟨fun run site m => Action.call_slice run site items hstart hstop m, rfl⟩

/-- From the last item but one to an end far behind the last one, beyond all words. -/
theorem slice_selects_positions_far :
    let items : List (Value Unit) := [.string "a".toList, .builtin .concat, .string "ü".toList]
    let far : Number := 18446744073709551616
    (items.length : Int) + 1 < wordBound ∧ Number.whole? (-2) = some (-2) ∧
      (some far).map Number.whole? = (some 18446744073709551616).map some ∧
      Action.call none .detached (.builtin .slice) [.sequence items, .number (-2), .number far]
          (Machine.initial ())
        = .ok (.sequence [.builtin .concat, .string "ü".toList]) (Machine.initial ()) := by
  intro items far
  have hlength : (items.length : Int) + 1 < wordBound := by decide
  have hstart : Number.whole? (-2) = some (-2) := by decide +kernel
  have hstop : (some far).map Number.whole? = (some 18446744073709551616).map some := by
    decide +kernel
  obtain ⟨hcall, -⟩ := slice_selects_positions hlength hstart hstop
  exact ⟨hlength, hstart, hstop, hcall none .detached (Machine.initial ())⟩

end DrawLang
