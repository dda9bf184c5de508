/-
DrawLang/Proofs/Action/Ending.lean

How actions end.  An action always ends, with a value or with a stop, and
leaves a machine behind; `Ends` says that both meet a condition.  Chained
actions end by the conditions of their parts (`ends_bind`).

Most actions leave the machine in a certain relation to what it was, such as
"nothing but the innermost frame has changed".  `Leaves K` says so for the
relation `K`, on every machine and for every outcome but a crash; and it says
that the crash is not the one of a missing frame.  For a preorder `K` the rules
below take an action apart.
-/
import Mathlib.Order.Defs.Unbundled
import DrawLang.Machine

namespace DrawLang

/-! ### Stops -/

/-- The stop does not tell of frames that were to be removed and are missing. -/
def Stop.HasFrames (s : Stop) : Prop := ∀ count depth, s ≠ .crash (.emptyStack count depth)

theorem Stop.hasFrames_at (source : Text) (offset : Nat) (wanted : Wanted) (got : Option Text) :
    (Stop.at source offset wanted got).HasFrames := by
  intro count depth
  unfold Stop.at
  split <;> simp

theorem Site.hasFrames_blame (site : Site) (wanted : Wanted) (got : Text) :
    (site.blame wanted got).HasFrames :=
  Stop.hasFrames_at _ _ _ _

theorem Site.hasFrames_blameArgument (site : Site) (i : Nat) (wanted : Wanted) (got : Text) :
    (site.blameArgument i wanted got).HasFrames :=
  Stop.hasFrames_at _ _ _ _

namespace Action

variable {β ε α γ δ : Type}

/-! ### Outcomes -/

/-- What an action comes to on a machine, the machine behind it aside. -/
def outcome (a : Action β ε α) (m : Machine β ε) : Except Stop α :=
  match a m with
  | .ok v _ => .ok v
  | .error s _ => .error s

/-- The outcome of an action and the machine behind it meet a condition. -/
def Ends (a : Action β ε α) (m : Machine β ε)
    (post : Except Stop α → Machine β ε → Prop) : Prop :=
  match a m with
  | .ok v m' => post (.ok v) m'
  | .error s m' => post (.error s) m'

theorem ends_of_ok {a : Action β ε α} {m m' : Machine β ε} {v : α} (e : a m = .ok v m')
    {post : Except Stop α → Machine β ε → Prop} : a.Ends m post ↔ post (.ok v) m' := by
  rw [Ends, e]

theorem ends_of_error {a : Action β ε α} {m m' : Machine β ε} {s : Stop} (e : a m = .error s m')
    {post : Except Stop α → Machine β ε → Prop} : a.Ends m post ↔ post (.error s) m' := by
  rw [Ends, e]

theorem Ends.mono {a : Action β ε α} {m : Machine β ε}
    {post post' : Except Stop α → Machine β ε → Prop} (h : a.Ends m post)
    (himp : ∀ r m', post r m' → post' r m') : a.Ends m post' := by
  rcases e : a m with ⟨v, m'⟩ | ⟨s, m'⟩
  · exact (ends_of_ok e).2 (himp _ _ ((ends_of_ok e).1 h))
  · exact (ends_of_error e).2 (himp _ _ ((ends_of_error e).1 h))

theorem Ends.and {a : Action β ε α} {m : Machine β ε}
    {post post' : Except Stop α → Machine β ε → Prop} (h : a.Ends m post) (h' : a.Ends m post') :
    a.Ends m fun r m' => post r m' ∧ post' r m' := by
  rcases e : a m with ⟨v, m'⟩ | ⟨s, m'⟩
  · exact (ends_of_ok e).2 ⟨(ends_of_ok e).1 h, (ends_of_ok e).1 h'⟩
  · exact (ends_of_error e).2 ⟨(ends_of_error e).1 h, (ends_of_error e).1 h'⟩

/-- A chain ends as its second part ends where the first one has a value, and
else as its first part. -/
theorem ends_bind {a : Action β ε α} {f : α → Action β ε γ} {m : Machine β ε}
    {post : Except Stop γ → Machine β ε → Prop} :
    (a >>= f).Ends m post ↔ a.Ends m fun
      | .ok v, m' => (f v).Ends m' post
      | .error s, m' => post (.error s) m' := by
  unfold Ends
  rw [show (a >>= f) m = EStateM.bind a f m from rfl, EStateM.bind]
  rcases a m with ⟨v, m'⟩ | ⟨s, m'⟩ <;> rfl

/-! ### What actions leave behind -/

/-- The machine is in a relation to what it was, unless the outcome is a crash,
which then is not the one of a missing frame. -/
def Kept (K : Machine β ε → Machine β ε → Prop) (m : Machine β ε) :
    Except Stop α → Machine β ε → Prop
  | .ok _, m' => K m m'
  | .error (.fault _), m' => K m m'
  | .error (.crash c), _ => (Stop.crash c).HasFrames

theorem kept_of_hasFrames {K : Machine β ε → Machine β ε → Prop} {m m' : Machine β ε} {s : Stop}
    (hs : s.HasFrames) (h : K m m') : Kept K m (.error s : Except Stop α) m' := by
  rcases s with f | c
  · exact h
  · exact hs

/-- On every machine the action leaves one that is in a relation to it. -/
def Leaves (K : Machine β ε → Machine β ε → Prop) (a : Action β ε α) : Prop :=
  ∀ m, a.Ends m (Kept K m)

variable {K K' : Machine β ε → Machine β ε → Prop}

theorem Leaves.mono {a : Action β ε α} (h : Leaves K a) (hK : ∀ m m', K m m' → K' m m') :
    Leaves K' a := by
  intro m
  refine (h m).mono fun r m' hr => ?_
  rcases r with (f | c) | v
  · exact hK m m' hr
  · exact hr
  · exact hK m m' hr

section Rules

variable [IsPreorder (Machine β ε) K]

theorem leaves_pure (v : α) : Leaves K (pure v : Action β ε α) :=
  fun m => refl_of K m

theorem leaves_throw {s : Stop} (hs : s.HasFrames) : Leaves K (throw s : Action β ε α) := by
  exact fun m => kept_of_hasFrames hs (refl_of K m)

theorem leaves_bind {a : Action β ε α} {f : α → Action β ε γ} (ha : Leaves K a)
    (hf : ∀ v, Leaves K (f v)) : Leaves K (a >>= f) := by
  intro m
  refine ends_bind.2 ((ha m).mono ?_)
  rintro ((g | c) | v) m' hm
  -- a stop of the first part is the stop of the chain
  · exact hm
  · exact hm
  -- behind a value the two relations are chained, unless the second part crashes
  · refine (hf v m').mono fun r m'' hr => ?_
    rcases r with (g | c) | w
    · exact trans_of K hm hr
    · exact hr
    · exact trans_of K hm hr

end Rules

end Action

end DrawLang
