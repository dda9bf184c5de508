/-
DrawLang/Proofs/Invocation/Requirements.lean

What the parameters of built-in operations require of their arguments, and the order in which
that is looked at.  A call puts a list of *conditions* on its arguments, one for each parameter
that has an argument (`Builtin.conditions`).  A computation that is judged by such a list comes
to a value if all of them are met, and otherwise blames the first one that is not (`Judged`);
each check of an argument is judged by its own condition, and checks that follow each other by
the conditions in a row (`Judged.cons`).
-/
import DrawLang.Proofs.Bernoulli.Texts
import DrawLang.Proofs.Invocation.Calm

namespace DrawLang

variable {β α γ : Type}

open Number

/-! ### Requirements -/

/-- What a parameter requires. -/
inductive Requirement where
  | number
  /-- A number that equals an integer. -/
  | whole
  /-- An integer that is not negative. -/
  | count
  /-- A count of Bernoulli numbers that can all be computed. -/
  | tabulated
  | color
  | sequence
  | shape
  | vector
  /-- Data to go round in, which has items unless the argument behind it is a count of zero. -/
  | repeatable
  deriving DecidableEq, Repr

namespace Requirement

/-- The rule that an argument breaks that is not what is required. -/
def kind : Requirement → FaultKind
  | number | whole | count | tabulated => .number
  | color => .color
  | sequence | repeatable => .data
  | shape => .shape
  | vector => .vector

/-- A value is what is required, as one of these arguments. -/
def Met (args : List (Value β)) (v : Value β) : Requirement → Prop
  | number => ∃ n, v = .number n
  | whole => ∃ n k, v = .number n ∧ n.whole? = some k
  | count => ∃ n k, v = .number n ∧ n.whole? = some k ∧ 0 ≤ k
  | tabulated => ∃ n k, v = .number n ∧ n.whole? = some k ∧ 0 ≤ k ∧
      ∀ i : Nat, (i : Int) < k → ∃ b, Bernoulli.number (i + 2) = .ok b
  | color => (∃ c, v = .color c) ∨ ∃ c : Color, v = .string c.name
  | sequence => ∃ items, v = .sequence items
  | shape => ∃ s, v = .shape s
  | vector => ∃ w, v = .vector w
  | repeatable => v = .sequence [] → ∃ n, args[1]? = some (.number n) ∧ n.whole? = some 0

end Requirement

/-- A requirement of a parameter, with the argument for the parameter and its index. -/
structure Condition (β : Type) where
  index : Nat
  requirement : Requirement
  argument : Value β

/-- The argument is what is required. -/
def Condition.Met (args : List (Value β)) (c : Condition β) : Prop :=
  c.requirement.Met args c.argument

/-- The condition on an argument in front of others, if there is such an argument. -/
def Condition.ifGiven (index : Nat) (requirement : Requirement) (argument : Option (Value β))
    (more : List (Condition β)) : List (Condition β) :=
  match argument with
  | none => more
  | some v => ⟨index, requirement, v⟩ :: more

namespace Builtin

/-- What the parameters require, in their order.  The values to be joined may be anything. -/
def requirements : Builtin → List Requirement
  | range => [.count, .number, .number]
  | square => [.number, .color, .number]
  | parallelogram => [.number, .number, .number, .color, .number]
  | merge => [.shape, .shape, .vector, .number]
  | vector => [.number, .number]
  | concat => []
  | .repeat => [.repeatable, .count]
  | slice => [.sequence, .whole, .whole]
  | length => [.sequence]
  | adaLovelace => [.tabulated]

/-- The conditions on the arguments of a call, in the order in which they are looked at: that of
the parameters, but the count of a repetition comes before its data. -/
def conditions (b : Builtin) (args : List (Value β)) : List (Condition β) :=
  let inOrder := (b.requirements.zip args).zipIdx.map fun e => ⟨e.2, e.1.1, e.1.2⟩
  if b = .repeat then inOrder.reverse else inOrder

/-- A condition is one on the argument with its index, and of the parameter with that index. -/
theorem getElem?_of_mem_conditions {b : Builtin} {args : List (Value β)} {c : Condition β}
    (h : c ∈ b.conditions args) :
    b.requirements[c.index]? = some c.requirement ∧ args[c.index]? = some c.argument := by
  have hmem : c ∈ (b.requirements.zip args).zipIdx.map fun e => ⟨e.2, e.1.1, e.1.2⟩ := by
    unfold conditions at h
    dsimp only at h
    split at h
    · exact List.mem_reverse.1 h
    · exact h
  obtain ⟨⟨⟨r, v⟩, i⟩, he, rfl⟩ := List.mem_map.1 hmem
  exact List.getElem?_zip_eq_some.1 (List.mem_zipIdx_iff_getElem?.1 he)

end Builtin

/-! ### Judged computations -/

section Judged

variable (site : Site) (args : List (Value β))

/-- The check comes to something with the property if the condition is met, and blames its
argument if it is not. -/
inductive Checked (P : α → Prop) (c : Condition β) : Except Stop α → Prop
  | met {a : α} (hmet : c.Met args) (ha : P a) : Checked P c (.ok a)
  | violated {wanted : Wanted} (hnot : ¬ c.Met args) (hkind : wanted.kind = c.requirement.kind)
    (got : Text) : Checked P c (.error (site.blameArgument c.index wanted got))

/-- The computation comes to something with the property if all conditions are met, and blames the
argument of the first condition that is not. -/
inductive Judged (Q : α → Prop) (cs : List (Condition β)) : Except Stop α → Prop
  | met {a : α} (hmet : ∀ c ∈ cs, c.Met args) (ha : Q a) : Judged Q cs (.ok a)
  | violated {before after : List (Condition β)} {c : Condition β} {wanted : Wanted}
    (hcs : cs = before ++ c :: after) (hmet : ∀ e ∈ before, e.Met args) (hnot : ¬ c.Met args)
    (hkind : wanted.kind = c.requirement.kind) (got : Text) :
    Judged Q cs (.error (site.blameArgument c.index wanted got))

variable {site args}

theorem Checked.map {P : α → Prop} {P' : γ → Prop} {c : Condition β} {x : Except Stop α}
    {g : α → γ} (hx : Checked site args P c x) (hg : ∀ a, P a → P' (g a)) :
    Checked site args P' c (x.map g) := by
  cases hx with
  | met hmet ha => exact .met hmet (hg _ ha)
  | violated hnot hkind got => exact .violated hnot hkind got

theorem Judged.nil {Q : α → Prop} {a : α} (ha : Q a) : Judged site args Q [] (.ok a) :=
  .met nofun ha

/-- **What follows a check is judged by what follows its condition.** -/
theorem Judged.cons {P : α → Prop} {Q : γ → Prop} {c : Condition β} {cs : List (Condition β)}
    {x : Except Stop α} {f : α → Except Stop γ} (hx : Checked site args P c x)
    (hf : ∀ a, P a → Judged site args Q cs (f a)) :
    Judged site args Q (c :: cs) (x >>= f) := by
  cases hx with
  | violated hnot hkind got => exact .violated (List.nil_append _).symm nofun hnot hkind got
  | @met a hmet ha =>
    show Judged site args Q (c :: cs) (f a)
    generalize hy : f a = y
    have hrest := hy ▸ hf a ha
    cases hrest with
    | met hall hb => exact .met (List.forall_mem_cons.2 ⟨hmet, hall⟩) hb
    | violated hcs hbefore hnot hkind got =>
      exact .violated (congrArg (c :: ·) hcs) (List.forall_mem_cons.2 ⟨hmet, hbefore⟩) hnot hkind
        got

theorem Judged.single {Q : α → Prop} {c : Condition β} {x : Except Stop α}
    (hx : Checked site args Q c x) : Judged site args Q [c] x := by
  cases hx with
  | met hmet ha => exact .met (List.forall_mem_singleton.2 hmet) ha
  | violated hnot hkind got => exact .violated (List.nil_append _).symm nofun hnot hkind got

/-- An argument that may be missing is checked if it is there.  What is known of what it comes to
holds of the default, too, in its place. -/
theorem Judged.optional {P : Value β → α → Prop} {Q : γ → Prop} {i : Nat} {r : Requirement}
    {cs : List (Condition β)} {default : α} {standsFor : Value β}
    {check : Value β → Except Stop α} {f : α → Except Stop γ}
    (hcheck : ∀ {v}, Checked site args (P v) ⟨i, r, v⟩ (check v)) (hdefault : P standsFor default)
    {v : Option (Value β)} (hf : ∀ a, P (v.getD standsFor) a → Judged site args Q cs (f a)) :
    Judged site args Q (Condition.ifGiven i r v cs) (Site.optional default check v >>= f) := by
  rcases v with - | v
  · exact hf default hdefault
  · exact .cons hcheck hf

end Judged

/-! ### Checks -/

theorem Color.named?_eq_some_iff {t : Text} {c : Color} : named? t = some c ↔ t = c.name := by
  constructor
  · intro h
    have hname := List.find?_some h
    exact (of_decide_eq_true hname).symm
  · rintro rfl
    exact named?_name c

theorem Number.clamped_nonneg_iff {k : Int} : 0 ≤ clamped k ↔ 0 ≤ k := by
  have hpos := wordBound_pos
  unfold clamped
  omega

namespace Site

variable {site : Site} {args : List (Value β)} {i : Nat} {v : Value β}

/-- What a view shows of a value is all that there is to the requirement. -/
theorem checked_expect {r : Requirement} {wanted : Wanted} {view : Value β → Option α}
    {make : α → Value β} (hkind : wanted.kind = r.kind) (hmet : r.Met args v ↔ ∃ a, v = make a)
    (hview : ∀ a, view v = some a ↔ v = make a) :
    Checked site args (fun a => v = make a) ⟨i, r, v⟩ (site.expect i wanted view v) := by
  unfold expect
  rcases e : view v with - | a
  · refine .violated (fun h => ?_) hkind _
    obtain ⟨a, ha⟩ := hmet.1 h
    exact absurd (e.symm.trans ((hview a).2 ha)) nofun
  · have ha := (hview a).1 e
    exact .met (hmet.2 ⟨a, ha⟩) ha

theorem checked_number :
    Checked site args (fun n => v = .number n) ⟨i, .number, v⟩ (site.number i v) :=
  checked_expect rfl Iff.rfl fun n => by cases v <;> simp [Value.number?]

theorem checked_sequence :
    Checked site args (fun items => v = .sequence items) ⟨i, .sequence, v⟩ (site.sequence i v) :=
  checked_expect rfl Iff.rfl fun items => by cases v <;> simp [Value.sequence?]

theorem checked_shape :
    Checked site args (fun s => v = .shape s) ⟨i, .shape, v⟩ (site.shape i v) :=
  checked_expect rfl Iff.rfl fun s => by cases v <;> simp [Value.shape?]

theorem checked_vector :
    Checked site args (fun w => v = .vector w) ⟨i, .vector, v⟩ (site.vector i v) :=
  checked_expect rfl Iff.rfl fun w => by cases v <;> simp [Value.vector?]

theorem met_color_iff : Requirement.color.Met args v ↔ ∃ c, v.color? = some c := by
  cases v with
  | color c => exact ⟨fun _ => ⟨c, rfl⟩, fun _ => .inl ⟨c, rfl⟩⟩
  | string t =>
    constructor
    · rintro (⟨c, ⟨⟩⟩ | ⟨c, ⟨⟩⟩)
      exact ⟨c, Color.named?_name c⟩
    · rintro ⟨c, hc⟩
      exact .inr ⟨c, congrArg _ (Color.named?_eq_some_iff.1 hc)⟩
  | _ => exact ⟨by rintro (⟨_, ⟨⟩⟩ | ⟨_, ⟨⟩⟩), by rintro ⟨_, ⟨⟩⟩⟩

theorem checked_color :
    Checked site args (fun c => v.color? = some c) ⟨i, .color, v⟩ (site.color i v) := by
  unfold Site.color Site.expect
  rcases e : v.color? with - | c
  · refine .violated (fun hmet => ?_) rfl _
    obtain ⟨c, hc⟩ := met_color_iff.1 hmet
    exact absurd (e.symm.trans hc) nofun
  · exact .met (met_color_iff.2 ⟨c, e⟩) rfl

/-- What is kept of an integer is the nearest word. -/
theorem checked_integer :
    Checked site args (fun w => ∃ n k, v = .number n ∧ n.whole? = some k ∧ w = clamped k)
      ⟨i, .whole, v⟩ (site.integer i v) := by
  have hnumber : Checked site args _ ⟨i, .number, v⟩ (site.number i v) := checked_number
  unfold Site.integer
  generalize site.number i v = x at hnumber
  cases hnumber with
  | violated hnot hkind got =>
    refine Checked.violated (c := ⟨i, .whole, v⟩) ?_ hkind got
    rintro ⟨n, k, hv, -⟩
    exact hnot ⟨n, hv⟩
  | @met n _ hv =>
    dsimp only
    rcases e : n.whole? with - | k
    · refine .violated ?_ rfl _
      rintro ⟨n', k, hv', hk⟩
      obtain rfl : n = n' := Value.number.inj (hv.symm.trans hv')
      exact absurd (e.symm.trans hk) nofun
    · exact .met ⟨n, k, hv, e⟩ ⟨n, k, hv, e, rfl⟩

theorem checked_count :
    Checked site args
      (fun c => ∃ n k, v = .number n ∧ n.whole? = some k ∧ 0 ≤ k ∧ c = (clamped k).toNat)
      ⟨i, .count, v⟩ (site.count i v) := by
  have hinteger : Checked site args _ ⟨i, .whole, v⟩ (site.integer i v) := checked_integer
  unfold Site.count
  generalize site.integer i v = x at hinteger
  cases hinteger with
  | violated hnot hkind got =>
    refine Checked.violated (c := ⟨i, .count, v⟩) ?_ hkind got
    rintro ⟨n, k, hv, hk, -⟩
    exact hnot ⟨n, k, hv, hk⟩
  | met hmet ha =>
    obtain ⟨n, k, rfl, hk, rfl⟩ := ha
    dsimp only
    split
    case isTrue hpos =>
      have hk0 := clamped_nonneg_iff.1 hpos
      exact .met ⟨n, k, rfl, hk, hk0⟩ ⟨n, k, rfl, hk, hk0, rfl⟩
    case isFalse hneg =>
      refine .violated ?_ rfl _
      rintro ⟨_, k', ⟨⟩, hk', hk0⟩
      obtain rfl : k = k' := Option.some.inj (hk.symm.trans hk')
      exact hneg (clamped_nonneg_iff.2 hk0)

end Site

/-! ### Counts -/

theorem Value.isEmpty_spread_iff {v : Value β} : v.spread.isEmpty ↔ v = .sequence [] := by
  cases v <;> simp [Value.spread]

namespace Requirement

variable {data : Value β} {n : Number} {k : Int}

/-- Where there is nothing to go round in, nothing but nothing can be made. -/
theorem met_repeatable_iff (hk : n.whole? = some k) (hk0 : 0 ≤ k) :
    repeatable.Met [data, .number n] data ↔
      ¬ (data.spread.isEmpty ∧ 0 < (clamped k).toNat) := by
  have hbound : 1 < wordBound := by decide
  have hzero : ¬ 0 < (clamped k).toNat ↔ k = 0 := by
    unfold clamped
    omega
  rw [Value.isEmpty_spread_iff, not_and, hzero]
  refine imp_congr_right fun _ => ⟨?_, ?_⟩
  · rintro ⟨_, ⟨⟩, hn⟩
    exact Option.some.inj (hk.symm.trans hn)
  · rintro rfl
    exact ⟨n, rfl, hk⟩

/-- All of a list of Bernoulli numbers can be computed just if the list can be made that is as
long as the nearest word says: no list is so long that a word is too short. -/
theorem met_tabulated_iff (hk : n.whole? = some k) (hk0 : 0 ≤ k) (args : List (Value β)) :
    tabulated.Met args (.number n) ↔ ∃ ts, Bernoulli.texts (clamped k).toNat = .ok ts := by
  have hbound : 98 < wordBound := by decide
  rw [Bernoulli.exists_texts_iff]
  constructor
  · rintro ⟨_, k', ⟨⟩, hk', -, hall⟩ i hi
    obtain rfl : k = k' := Option.some.inj (hk.symm.trans hk')
    exact hall i (by unfold clamped at hi; omega)
  · intro h
    refine ⟨n, k, rfl, hk, hk0, fun i hi => h i ?_⟩
    by_contra hlong
    have hrefused : 97 < (clamped k).toNat := by
      unfold clamped at hlong ⊢
      omega
    obtain ⟨b, hb⟩ := h 97 hrefused
    exact Bernoulli.number_ninetyNine_refused b hb

end Requirement

end DrawLang
