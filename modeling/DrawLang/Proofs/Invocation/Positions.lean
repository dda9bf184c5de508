/-
DrawLang/Proofs/Invocation/Positions.lean

What operations compute with once their arguments are checked.  Positions are
signed 64-bit words.  A slice adds them to the length of its data and to one, and
none of these sums leaves the words as long as the length is one of them itself
(`Value.cutOutInWords?_eq`).  A repetition goes round its data by remainders of its
length, which is not zero if there is anything to make.  Fractions of Bernoulli
numbers that do not fit are refused.

Main statement: `Invocation.inRange_of_plan`.
-/
import DrawLang.Proofs.Invocation.Plan

namespace DrawLang

variable {β : Type}

namespace Number

/-- The integer is a signed 64-bit word. -/
def IsWord (i : Int) : Prop := -wordBound ≤ i ∧ i < wordBound

instance (i : Int) : Decidable (IsWord i) := inferInstanceAs (Decidable (_ ∧ _))

/-- A sum or a difference, unless it overflows. -/
def word? (i : Int) : Option Int := if IsWord i then some i else none

theorem word?_eq_some {i : Int} (h : IsWord i) : word? i = some i := if_pos h

theorem isWord_clamped (i : Int) : IsWord (clamped i) :=
  ⟨neg_wordBound_le_clamped i, clamped_lt_wordBound i⟩

end Number

open Number

/-! ### Positions in words -/

namespace Value

/-- How many items are before a start position, unless a word overflows on the way. -/
def beforeInWords? (length start : Int) : Option Int :=
  if 0 < start then word? (start - 1) else if start < 0 then word? (length + start) else some 0

/-- How many items are up to an end position, unless a word overflows on the way. -/
def upToInWords? (length : Int) : Option Int → Option Int
  | none => some length
  | some stop =>
    if stop < 0 then (word? (length + stop)).bind fun i => word? (i + 1) else some stop

variable {length : Int}

theorem beforeInWords?_eq (hlength : 0 ≤ length) (hbound : length < wordBound) {start : Int}
    (hstart : IsWord start) : beforeInWords? length start = some (before length start) := by
  unfold beforeInWords? before
  unfold IsWord at hstart
  have hpos := wordBound_pos
  split
  · refine word?_eq_some ?_
    unfold IsWord
    omega
  · split
    · refine word?_eq_some ?_
      unfold IsWord
      omega
    · rfl

theorem upToInWords?_eq (hlength : 0 ≤ length) (hbound : length < wordBound) {stop : Option Int}
    (hstop : ∀ k ∈ stop, IsWord k) : upToInWords? length stop = some (upTo length stop) := by
  rcases stop with - | k
  · rfl
  · have hk := hstop k rfl
    unfold upToInWords? upTo
    unfold IsWord at hk
    dsimp only
    split
    · have hsum : IsWord (length + k) := by
        unfold IsWord
        omega
      have hnext : IsWord (length + k + 1) := by
        unfold IsWord
        omega
      rw [word?_eq_some hsum, Option.bind_some, word?_eq_some hnext]
    · rfl

/-- The items of a slice, unless a word overflows on the way. -/
def cutOutInWords? (items : List (Value β)) (start : Int) (stop : Option Int) :
    Option (List (Value β)) := do
  let first ← beforeInWords? items.length start
  let last ← upToInWords? items.length stop
  return (items.take (within items.length last)).drop (within items.length first)

/-- **No word overflows in a slice**, since sums are made of a length and a word. -/
theorem cutOutInWords?_eq {items : List (Value β)} (hbound : (items.length : Int) < wordBound)
    {start : Int} {stop : Option Int} (hstart : IsWord start) (hstop : ∀ l ∈ stop, IsWord l) :
    cutOutInWords? items start stop = some (cutOut items start stop) := by
  have hlength := Int.natCast_nonneg items.length
  rw [cutOutInWords?, beforeInWords?_eq hlength hbound hstart, upToInWords?_eq hlength hbound hstop]
  rfl

end Value

/-! ### Checked positions -/

theorem Site.isWord_integer {site : Site} {i : Nat} {v : Value β} {k : Int}
    (h : site.integer i v = .ok k) : IsWord k := by
  unfold Site.integer at h
  split at h
  · cases h
  · split at h
    · cases h
      exact isWord_clamped _
    · cases h

/-- A position that may be missing is a word if it is there. -/
theorem Site.isWord_optional {site : Site} {i : Nat} {v : Option (Value β)} {position : Option Int}
    (h : Site.optional none (fun v => (site.integer i v).map some) v = .ok position) :
    ∀ k ∈ position, IsWord k := by
  rcases v with - | v
  · cases h
    exact nofun
  · change (site.integer i v).map some = .ok position at h
    rcases e : site.integer i v with s | k <;> rw [e] at h
    · cases h
    · cases h
      rintro _ ⟨⟩
      exact isWord_integer e

/-! ### Invocations -/

/-- What the invocation computes with stays in range, once its arguments are checked at the site.
`x` is the number of items it makes and its result.

The positions of a slice are what its start and its end are checked to be.  It comes to the items
between them, and no sum on the way overflows as long as the length of its data is a word.  A
repetition makes as many items as its count is checked to be, and one that makes any goes round
something.  The fractions of as many Bernoulli numbers as are counted do not overflow, except
where that is noticed and the number is refused. -/
def Invocation.InRange (site : Site) (x : Nat × Except Stop (Value β)) :
    Invocation (Value β) → Prop
  | .slice data start stop =>
    ∃ items first last, data = .sequence items ∧ site.integer 1 start = .ok first ∧
      Site.optional none (fun v => (site.integer 2 v).map some) stop = .ok last ∧
      x = (0, .ok (.sequence (Value.cutOut items first last))) ∧
      ((items.length : Int) < wordBound →
        Value.cutOutInWords? items first last = some (Value.cutOut items first last))
  | .repeat data count =>
    site.count 1 count = .ok x.1 ∧
      x.2 = .ok (.sequence (Value.cycle data.spread x.1)) ∧ (0 < x.1 → data.spread.length ≠ 0)
  | .adaLovelace count =>
    site.count 0 count = .ok x.1 ∧ ∀ c, Bernoulli.texts x.1 ≠ .error (.crash c)
  | _ => True

/-- A computation yields something only if what it begins with does. -/
theorem exists_of_bind_eq_ok {α γ : Type} {y : Except Stop α} {f : α → Except Stop γ} {b : γ}
    (h : y >>= f = .ok b) : ∃ a, y = .ok a ∧ f a = .ok b := by
  rcases y with s | a
  · cases h
  · exact ⟨a, rfl, h⟩

theorem Site.eq_of_sequence {site : Site} {i : Nat} {v : Value β} {items : List (Value β)}
    (h : site.sequence i v = .ok items) : v = .sequence items := by
  cases v <;> cases h
  rfl

variable {site : Site} {x : Nat × Except Stop (Value β)}

/-- A slice computes in words. -/
theorem Invocation.inRange_slice {data start : Value β} {stop : Option (Value β)}
    (h : (Invocation.slice data start stop).plan site = .ok x) :
    (Invocation.slice data start stop).InRange site x := by
  obtain ⟨items, hdata, h⟩ := exists_of_bind_eq_ok h
  obtain ⟨first, hfirst, h⟩ := exists_of_bind_eq_ok h
  obtain ⟨last, hlast, h⟩ := exists_of_bind_eq_ok h
  refine ⟨items, first, last, Site.eq_of_sequence hdata, hfirst, hlast,
    (Except.ok.inj h).symm, fun hbound => ?_⟩
  exact Value.cutOutInWords?_eq hbound (Site.isWord_integer hfirst) (Site.isWord_optional hlast)

/-- A repetition that makes anything goes round something. -/
theorem Invocation.inRange_repeat {data count : Value β}
    (h : (Invocation.repeat data count).plan site = .ok x) :
    (Invocation.repeat data count).InRange site x := by
  obtain ⟨n, hcount, h⟩ := exists_of_bind_eq_ok h
  change (if data.spread.isEmpty ∧ 0 < n then _ else _) = _ at h
  by_cases hnone : data.spread.isEmpty ∧ 0 < n
  · rw [if_pos hnone] at h
    cases h
  · rw [if_neg hnone] at h
    cases h
    refine ⟨hcount, rfl, fun hpos hlength => hnone ⟨?_, hpos⟩⟩
    exact List.isEmpty_iff.2 (List.length_eq_zero_iff.1 hlength)

/-- A list of Bernoulli numbers is computed or refused. -/
theorem Invocation.inRange_adaLovelace {count : Value β}
    (h : (Invocation.adaLovelace count).plan site = .ok x) :
    (Invocation.adaLovelace count).InRange site x := by
  obtain ⟨n, hcount, h⟩ := exists_of_bind_eq_ok h
  cases h
  exact ⟨hcount, fun c hcrash => absurd (Bernoulli.texts_refusal hcrash) nofun⟩

/-- **What an invocation computes with stays in range.** -/
theorem Invocation.inRange_of_plan {i : Invocation (Value β)} (h : i.plan site = .ok x) :
    i.InRange site x := by
  cases i with
  | slice => exact inRange_slice h
  | «repeat» => exact inRange_repeat h
  | adaLovelace => exact inRange_adaLovelace h
  | _ => trivial

end DrawLang
