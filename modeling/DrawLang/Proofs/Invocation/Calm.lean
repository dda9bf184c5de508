/-
DrawLang/Proofs/Invocation/Calm.lean

Calls of built-in operations on a machine with no request pending.  The checkpoints are passed,
so a plan comes to its result (`Action.settle_of_calm`), and the machine is left as it is.  An
accepted number of arguments always makes an invocation (`Invocation.exists_of_accepts`), so a
call comes to what the plan of that invocation says (`Action.call_of_calm`).
-/
import DrawLang.Proofs.Invocation.Made

namespace DrawLang

variable {β ε α : Type}

/-! ### Accepted arguments -/

theorem Arity.accepts_iff {a : Arity} {count : Nat} :
    a.accepts count ↔ a.least ≤ count ∧ ∀ most ∈ a.most, count ≤ most := by
  obtain ⟨least, - | most⟩ := a <;> simp [accepts]

section Lists

variable {more : List α}

theorem exists_cons_cons {n : Nat} (h : n + 2 ≤ more.length) :
    ∃ x y rest, more = x :: y :: rest ∧ n ≤ rest.length := by
  rcases more with - | ⟨x, - | ⟨y, rest⟩⟩
  · exact absurd h (by simp)
  · exact absurd h (by simp)
  · exact ⟨x, y, rest, rfl, Nat.le_of_add_le_add_right h⟩

theorem toList_getElem?_zero (h : more.length ≤ 1) : more[0]?.toList = more := by
  rcases more with - | ⟨x, - | ⟨y, rest⟩⟩
  · rfl
  · rfl
  · simp at h

theorem toList_getElem?_one (h : more.length ≤ 2) :
    more[0]?.toList ++ more[1]?.toList = more := by
  rcases more with - | ⟨x, rest⟩
  · rfl
  · exact congrArg (x :: ·) (toList_getElem?_zero (Nat.le_of_succ_le_succ h))

end Lists

/-- **Every accepted number of arguments makes an invocation with these arguments.** -/
theorem Invocation.exists_of_accepts {b : Builtin} {args : List α}
    (h : b.arity.accepts args.length) : ∃ i, ofArguments? b args = some i ∧ i.arguments = args := by
  obtain ⟨hleast, hmost⟩ := Arity.accepts_iff.1 h
  cases b with
  | concat => exact ⟨_, rfl, rfl⟩
  | range | square | slice =>
    obtain ⟨x, y, more, rfl, -⟩ := exists_cons_cons (n := 0) hleast
    have hmore : more.length ≤ 1 := Nat.le_of_add_le_add_right (b := 2) (hmost 3 rfl)
    exact ⟨_, rfl, congrArg (x :: y :: ·) (toList_getElem?_zero hmore)⟩
  | merge =>
    obtain ⟨x, y, more, rfl, -⟩ := exists_cons_cons (n := 0) hleast
    have hmore : more.length ≤ 2 := Nat.le_of_add_le_add_right (b := 2) (hmost 4 rfl)
    exact ⟨_, rfl, congrArg (x :: y :: ·) (toList_getElem?_one hmore)⟩
  | parallelogram =>
    obtain ⟨x, y, rest, rfl, hrest⟩ := exists_cons_cons (n := 2) hleast
    obtain ⟨z, w, more, rfl, -⟩ := exists_cons_cons (n := 0) hrest
    have hmore : more.length ≤ 1 := Nat.le_of_add_le_add_right (b := 4) (hmost 5 rfl)
    exact ⟨_, rfl, congrArg (x :: y :: z :: w :: ·) (toList_getElem?_zero hmore)⟩
  | vector | «repeat» =>
    obtain ⟨x, y, rfl⟩ := List.length_eq_two.1 (Nat.le_antisymm (hmost 2 rfl) hleast)
    exact ⟨_, rfl, rfl⟩
  | length | adaLovelace =>
    obtain ⟨x, rfl⟩ := List.length_eq_one_iff.1 (Nat.le_antisymm (hmost 1 rfl) hleast)
    exact ⟨_, rfl, rfl⟩

/-! ### Calls -/

namespace Action

theorem checkpoints_of_calm (site : Site) (count : Nat) {m : Machine β ε}
    (h : m.cancelled = false) : checkpoints site count m = .ok () m := by
  unfold checkpoints
  split
  · rfl
  · exact checkpoint_of_calm site h

/-- A plan comes to its result. -/
theorem settle_of_calm (site : Site) (plan : Except Stop (Nat × Except Stop α))
    {m : Machine β ε} (h : m.cancelled = false) :
    settle site plan m = check (plan >>= Prod.snd) m := by
  rcases plan with s | ⟨count, result⟩
  · rfl
  · exact bind_of_ok (checkpoints_of_calm site count h) fun _ => check result

/-- **A call of a built-in operation comes to what its plan says.** -/
theorem call_of_calm (run : Option (β → Action β ε (Value β))) (site : Site) {b : Builtin}
    {args : List (Value β)} (harity : b.arity.accepts args.length) {i : Invocation (Value β)}
    (hi : Invocation.ofArguments? b args = some i) {m : Machine β ε} (h : m.cancelled = false) :
    call run site (.builtin b) args m = check (i.plan site >>= Prod.snd) m := by
  have hplan : (Value.builtin b).plan site args = i.plan site := by
    rw [Value.plan, harity, hi]
  have hcallee : ∀ f, (.builtin b : Value β) ≠ .function f := by rintro f ⟨⟩
  rw [call_eq_settle run site _ args hcallee, hplan, settle_of_calm site _ h]

end Action

/-- The built-in operation comes to the value wherever it is called with no request pending,
and leaves the machine as it is. -/
def Builtin.Yields (b : Builtin) (args : List (Value β)) (v : Value β) : Prop :=
  ∀ ⦃ε : Type⦄ (run : Option (β → Action β ε (Value β))) (site : Site) (m : Machine β ε),
    m.cancelled = false → Action.call run site (.builtin b) args m = .ok v m

end DrawLang
