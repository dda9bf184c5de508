/-
DrawLang/Proofs/Invocation/Made.lean

What calls of anything but a function come to: plain values, what they are given, and rows
of plain values and of items of what they are given (`Value.madeOf_plan`).  Such a call
neither puts a sequence into another one nor looks into anything deeper than one level,
so given flat values it comes to a flat one (`Value.MadeOf.flat`).
-/
import DrawLang.Proofs.Action.Brackets
import DrawLang.Proofs.Value.Flat

namespace DrawLang

variable {β ε : Type}

namespace Value

/-- What calls of anything but a function make of the values that they are given. -/
inductive MadeOf (given : List (Value β)) : Value β → Prop
  | plain {v : Value β} (h : v.IsPlain) : MadeOf given v
  | same {v : Value β} (h : v ∈ given) : MadeOf given v
  | item {v g : Value β} (hg : g ∈ given) (h : v ∈ g.spread) : MadeOf given v
  | row {vs : List (Value β)} (h : ∀ v ∈ vs, v.IsPlain ∨ ∃ g ∈ given, v ∈ g.spread) :
    MadeOf given (.sequence vs)

theorem MadeOf.mono {given given' : List (Value β)} {v : Value β} (h : MadeOf given v)
    (hgiven : given ⊆ given') : MadeOf given' v := by
  cases h with
  | plain h => exact .plain h
  | same h => exact .same (hgiven h)
  | item hg h => exact .item (hgiven hg) h
  | row h => exact .row fun v hv => (h v hv).imp_right fun ⟨g, hg, hv⟩ => ⟨g, hgiven hg, hv⟩

/-- **What is made of flat values is flat.** -/
theorem MadeOf.flat {given : List (Value β)} {v : Value β} (h : MadeOf given v)
    (hgiven : ∀ g ∈ given, g.Flat) : v.Flat := by
  cases h with
  | plain h => exact flat_of_isPlain h
  | same h => exact hgiven v h
  | item hg h => exact ((hgiven _ hg).of_mem_spread h).1
  | row h =>
    refine flat_sequence_iff.2 fun w hw => ?_
    rcases h w hw with hplain | ⟨g, hg, hmem⟩
    · refine ⟨flat_of_isPlain hplain, ?_⟩
      rintro ws rfl
      exact hplain
    · exact (hgiven g hg).of_mem_spread hmem

end Value

/-! ### What plans yield -/

/-- If the plan yields a value, it has the property. -/
def Planned (Q : Value β → Prop) (x : Except Stop (Nat × Except Stop (Value β))) : Prop :=
  ∀ count v, x = .ok (count, .ok v) → Q v

theorem planned_error {Q : Value β → Prop} {s : Stop} : Planned Q (.error s) := by
  rintro _ _ ⟨⟩

theorem planned_bind {α : Type} {Q : Value β → Prop} {x : Except Stop α}
    {f : α → Except Stop (Nat × Except Stop (Value β))} (h : ∀ a, x = .ok a → Planned Q (f a)) :
    Planned Q (x >>= f) := by
  rcases x with s | a
  · exact planned_error
  · exact h a rfl

theorem planned_pure {Q : Value β → Prop} {v : Value β} (h : Q v) (count : Nat) :
    Planned Q (pure (count, .ok v)) := by
  rintro _ _ ⟨⟩
  exact h

/-! ### Arguments -/

/-- The arguments of an invocation. -/
def Invocation.arguments {α : Type} : Invocation α → List α
  | range count start step => count :: start :: step.toList
  | concat values => values
  | .repeat data count => [data, count]
  | slice data start stop => data :: start :: stop.toList
  | length data => [data]
  | adaLovelace count => [count]
  | square size color rotation => size :: color :: rotation.toList
  | parallelogram base height offset color rotation =>
    base :: height :: offset :: color :: rotation.toList
  | merge first second anchor rotation => first :: second :: (anchor.toList ++ rotation.toList)
  | vector x y => [x, y]

theorem Invocation.mem_of_mem_arguments {α : Type} {b : Builtin} {args : List α} {i : Invocation α}
    (h : ofArguments? b args = some i) : ∀ a ∈ i.arguments, a ∈ args := by
  unfold ofArguments? at h
  split at h <;> grind [arguments]

/-! ### Items of what is given -/

namespace Value

theorem mem_of_mem_cycle {items : List (Value β)} {count : Nat} {v : Value β}
    (h : v ∈ cycle items count) : v ∈ items := by
  obtain ⟨i, -, hi⟩ := List.mem_filterMap.1 h
  exact List.mem_toArray.1 (Array.mem_of_getElem? hi)

theorem mem_of_mem_cutOut {items : List (Value β)} {start : Int} {stop : Option Int} {v : Value β}
    (h : v ∈ cutOut items start stop) : v ∈ items :=
  List.mem_of_mem_take (List.mem_of_mem_drop h)

theorem mem_of_itemAt? {items : List (Value β)} {i : Int} {v : Value β}
    (h : Action.itemAt? items i = some v) : v ∈ items := by
  unfold Action.itemAt? at h
  split at h
  · exact List.mem_of_getElem? h
  · cases h

end Value

theorem Site.mem_spread_of_sequence {site : Site} {i : Nat} {v : Value β} {items : List (Value β)}
    (h : site.sequence i v = .ok items) : v.spread = items := by
  cases v <;> cases h
  rfl

/-! ### Plans -/

/-- An invocation makes its result of its arguments. -/
theorem Invocation.madeOf_plan (site : Site) (i : Invocation (Value β)) :
    Planned (Value.MadeOf i.arguments) (i.plan site) := by
  cases i with
  | range count start step =>
    refine planned_bind fun n _ => planned_bind fun a _ => planned_bind fun d _ => ?_
    refine planned_pure (.row fun v hv => ?_) n
    obtain ⟨k, -, rfl⟩ := List.mem_map.1 hv
    exact .inl trivial
  | concat values => exact planned_pure (.row fun v hv => .inr (List.mem_flatMap.1 hv)) _
  | «repeat» data count =>
    refine planned_bind fun n _ => ?_
    dsimp only
    split
    · exact planned_error
    · refine planned_pure (.row fun v hv => .inr ⟨data, ?_, Value.mem_of_mem_cycle hv⟩) n
      exact List.mem_cons_self
  | slice data start stop =>
    refine planned_bind fun items hitems => planned_bind fun a _ => planned_bind fun b _ => ?_
    refine planned_pure (.row fun v hv => .inr ⟨data, List.mem_cons_self, ?_⟩) 0
    rw [Site.mem_spread_of_sequence hitems]
    exact Value.mem_of_mem_cutOut hv
  | length data => exact planned_bind fun items _ => planned_pure (.plain trivial) 0
  | adaLovelace count =>
    refine planned_bind fun n _ k v h => ?_
    rcases e : Bernoulli.texts n with (_ | _ | c) | texts <;> rw [e] at h <;> cases h
    refine .row fun v hv => ?_
    obtain ⟨t, -, rfl⟩ := List.mem_map.1 hv
    exact .inl trivial
  | square size color rotation =>
    refine planned_bind fun a _ => planned_bind fun c _ => planned_bind fun r _ => ?_
    exact planned_pure (.plain trivial) 0
  | parallelogram base height offset color rotation =>
    refine planned_bind fun a _ => planned_bind fun b _ => planned_bind fun o _ => ?_
    exact planned_bind fun c _ => planned_bind fun r _ => planned_pure (.plain trivial) 0
  | merge first second anchor rotation =>
    refine planned_bind fun a _ => planned_bind fun b _ => planned_bind fun o _ => ?_
    exact planned_bind fun r _ => planned_pure (.plain trivial) 0
  | vector x y =>
    exact planned_bind fun a _ => planned_bind fun b _ => planned_pure (.plain trivial) 0

/-- What a sequence comes to when it is called: an item of it, or else the default. -/
theorem Site.exists_of_item {site : Site} {items args : List (Value β)} {v : Value β}
    (h : site.item items args = .ok v) :
    ∃ position more i, args = position :: more ∧ more.length ≤ 1 ∧
      site.integer 0 position = .ok i ∧ (Action.itemAt? items i = some v ∨
        (Action.itemAt? items i = none ∧ more = [v])) := by
  rcases args with - | ⟨position, more⟩
  · cases h
  rw [Site.item] at h
  split at h
  · cases h
  · rename_i hlength
    rcases hi : site.integer 0 position with s | i <;> rw [hi] at h
    · cases h
    dsimp only [bind, Except.bind] at h
    refine ⟨position, more, i, rfl, Nat.not_lt.1 hlength, hi, ?_⟩
    rcases hat : Action.itemAt? items i with - | w <;> rw [hat] at h
    · rcases more with - | ⟨w, more⟩
      · cases h
      · cases h
        obtain rfl : more = [] := List.length_eq_zero_iff.1 (by simpa using hlength)
        exact .inr ⟨rfl, rfl⟩
    · cases h
      exact .inl rfl

/-- **A call of anything but a function makes its result of what it is given.** -/
theorem Value.madeOf_plan (site : Site) (args : List (Value β)) (callee : Value β) :
    Planned (MadeOf (callee :: args)) (callee.plan site args) := by
  cases callee with
  | sequence items =>
    refine planned_bind fun v hv => planned_pure ?_ 0
    obtain ⟨position, more, i, rfl, -, -, hat | ⟨-, rfl⟩⟩ := Site.exists_of_item hv
    · exact .item List.mem_cons_self (mem_of_itemAt? hat)
    · exact .same (by simp)
  | builtin b =>
    rw [plan]
    split
    · rename_i i _ hi
      refine fun count v hv => (i.madeOf_plan site count v hv).mono fun a ha => ?_
      exact List.mem_cons_of_mem _ (Invocation.mem_of_mem_arguments hi a ha)
    · exact planned_error
  | number | string | color | vector | shape | function => exact planned_error

/-- If a plan is carried out and comes to a value, that is what it yields. -/
theorem Action.plan_of_settle {site : Site} {plan : Except Stop (Nat × Except Stop (Value β))}
    {m m' : Machine β ε} {v : Value β} (h : settle site plan m = .ok v m') :
    ∃ count, plan = .ok (count, .ok v) := by
  rcases plan with s | ⟨count, result⟩
  · cases h
  change (checkpoints site count >>= fun _ => check result) m = _ at h
  rcases e : checkpoints site count m with ⟨_, m₁⟩ | ⟨s, m₁⟩
  · rw [bind_of_ok e] at h
    rcases result with s | w
    · cases h
    · cases h
      exact ⟨count, rfl⟩
  · rw [bind_of_error e] at h
    cases h

end DrawLang
