/-
DrawLang/Proofs/Invocation/Blame.lean

Built-in operations fail just on arguments that are not what is required, and blame the first
of them.  For each operation its plan is judged by the conditions on its arguments
(`Invocation.judged_plan`), and a plan that all of them allow makes the value that the operation
stands for, of the arguments with the defaults of the missing ones behind them
(`Builtin.Makes`, `Builtin.filled`).

Main statement: `calls_blame_first_bad_argument`.
-/
import DrawLang.Proofs.Invocation.Requirements

namespace DrawLang

variable {β ε α : Type}

open Number Value

namespace Builtin

/-! ### Results -/

/-- What optional parameters stand for where they have no argument.  A slice ends at its last
item. -/
def defaults : Builtin → List (Value β)
  | range => [.number 1]
  | square | parallelogram => [.number 0]
  | merge => [.vector .zero, .number 0]
  | slice => [.number (-1)]
  | _ => []

/-- The arguments, with defaults for those that are missing. -/
def filled (b : Builtin) (args : List (Value β)) : List (Value β) :=
  args ++ b.defaults.drop (args.length - b.arity.least)

/-- What the operation makes of an argument for each parameter. -/
inductive Makes : Builtin → List (Value β) → Value β → Prop
  | range {count start step : Number} {k : Int} (hcount : count.whole? = some k) :
    Makes range [.number count, .number start, .number step]
      (.sequence (numbers (clamped k).toNat start step))
  | square {size rotation : Number} {c : Value β} {color : Color} (hcolor : c.color? = some color) :
    Makes square [.number size, c, .number rotation] (.shape (.square size color rotation))
  | parallelogram {base height offset rotation : Number} {c : Value β} {color : Color}
    (hcolor : c.color? = some color) :
    Makes parallelogram [.number base, .number height, .number offset, c, .number rotation]
      (.shape (.parallelogram base height offset color rotation))
  | merge (first second : Shape) (anchor : Vector) (rotation : Number) :
    Makes merge [.shape first, .shape second, .vector anchor, .number rotation]
      (.shape (.composite first second anchor rotation))
  | vector (x y : Number) : Makes vector [.number x, .number y] (.vector ⟨x, y⟩)
  | concat (values : List (Value β)) : Makes concat values (.sequence (values.flatMap spread))
  | «repeat» {data : Value β} {count : Number} {k : Int} (hcount : count.whole? = some k) :
    Makes .repeat [data, .number count] (.sequence (cycle data.spread (clamped k).toNat))
  | slice {items : List (Value β)} {start stop : Number} {k l : Int}
    (hstart : start.whole? = some k) (hstop : stop.whole? = some l) :
    Makes slice [.sequence items, .number start, .number stop]
      (.sequence (cutOut items (clamped k) (some (clamped l))))
  | length (items : List (Value β)) :
    Makes length [.sequence items] (.number (Float.ofNat items.length))
  | adaLovelace {count : Number} {k : Int} {texts : List Text} (hcount : count.whole? = some k)
    (htexts : List.Forall₂ (fun n t => ∃ b, Bernoulli.number n = .ok b ∧ b.text = t)
      (List.range' 2 (clamped k).toNat) texts) :
    Makes adaLovelace [.number count] (.sequence (texts.map .string))

end Builtin

/-! ### Plans -/

namespace Invocation

variable {site : Site}

/-- The plan of an invocation is judged by the conditions of its operation, and makes what the
operation stands for. -/
def IsJudged (site : Site) (b : Builtin) (i : Invocation (Value β)) : Prop :=
  Judged site i.arguments (b.Makes (b.filled i.arguments)) (b.conditions i.arguments)
    (i.plan site >>= Prod.snd)

open Site Condition

theorem judged_range (count start : Value β) (step : Option (Value β)) :
    IsJudged site .range (.range count start step) := by
  have hconditions : Builtin.range.conditions (count :: start :: step.toList)
      = ⟨0, .count, count⟩ :: ⟨1, .number, start⟩ :: ifGiven 2 .number step [] := by
    cases step <;> rfl
  have hfilled : Builtin.range.filled (count :: start :: step.toList)
      = [count, start, step.getD (.number 1)] := by
    cases step <;> rfl
  simp only [IsJudged, arguments, hconditions, hfilled, plan, bind_assoc, pure_bind]
  refine .cons checked_count fun c hc => .cons checked_number fun s hs =>
    .optional checked_number rfl fun d hd => .nil ?_
  obtain ⟨n, k, rfl, hk, -, rfl⟩ := hc
  rw [hs, hd]
  exact .range hk

theorem judged_square (size color : Value β) (rotation : Option (Value β)) :
    IsJudged site .square (.square size color rotation) := by
  have hconditions : Builtin.square.conditions (size :: color :: rotation.toList)
      = ⟨0, .number, size⟩ :: ⟨1, .color, color⟩ :: ifGiven 2 .number rotation [] := by
    cases rotation <;> rfl
  have hfilled : Builtin.square.filled (size :: color :: rotation.toList)
      = [size, color, rotation.getD (.number 0)] := by
    cases rotation <;> rfl
  simp only [IsJudged, arguments, hconditions, hfilled, plan, bind_assoc, pure_bind]
  refine .cons checked_number fun s hs => .cons checked_color fun c hc =>
    .optional checked_number rfl fun r hr => .nil ?_
  rw [hs, hr]
  exact .square hc

theorem judged_parallelogram (base height offset color : Value β) (rotation : Option (Value β)) :
    IsJudged site .parallelogram (.parallelogram base height offset color rotation) := by
  have hconditions :
      Builtin.parallelogram.conditions (base :: height :: offset :: color :: rotation.toList)
        = ⟨0, .number, base⟩ :: ⟨1, .number, height⟩ :: ⟨2, .number, offset⟩ ::
          ⟨3, .color, color⟩ :: ifGiven 4 .number rotation [] := by
    cases rotation <;> rfl
  have hfilled :
      Builtin.parallelogram.filled (base :: height :: offset :: color :: rotation.toList)
        = [base, height, offset, color, rotation.getD (.number 0)] := by
    cases rotation <;> rfl
  simp only [IsJudged, arguments, hconditions, hfilled, plan, bind_assoc, pure_bind]
  refine .cons checked_number fun b hb => .cons checked_number fun h hh =>
    .cons checked_number fun o ho => .cons checked_color fun c hc =>
    .optional checked_number rfl fun r hr => .nil ?_
  rw [hb, hh, ho, hr]
  exact .parallelogram hc

/-- A rotation that is given comes behind an anchor. -/
theorem judged_merge (first second : Value β) {anchor rotation : Option (Value β)}
    (h : rotation.isSome → anchor.isSome) :
    IsJudged site .merge (.merge first second anchor rotation) := by
  have hconditions :
      Builtin.merge.conditions (first :: second :: (anchor.toList ++ rotation.toList))
        = ⟨0, .shape, first⟩ :: ⟨1, .shape, second⟩ ::
          ifGiven 2 .vector anchor (ifGiven 3 .number rotation []) := by
    cases anchor <;> cases rotation <;> first | rfl | exact absurd (h rfl) nofun
  have hfilled :
      Builtin.merge.filled (first :: second :: (anchor.toList ++ rotation.toList))
        = [first, second, anchor.getD (.vector .zero), rotation.getD (.number 0)] := by
    cases anchor <;> cases rotation <;> first | rfl | exact absurd (h rfl) nofun
  simp only [IsJudged, arguments, hconditions, hfilled, plan, bind_assoc, pure_bind]
  refine .cons checked_shape fun p hp => .cons checked_shape fun q hq =>
    .optional checked_vector rfl fun a ha => .optional checked_number rfl fun r hr => .nil ?_
  rw [hp, hq, ha, hr]
  exact .merge p q a r

theorem judged_vector (x y : Value β) : IsJudged site .vector (.vector x y) := by
  show Judged site [x, y] (Builtin.vector.Makes [x, y])
    [⟨0, .number, x⟩, ⟨1, .number, y⟩] _
  simp only [plan, bind_assoc, pure_bind]
  refine .cons checked_number fun a ha => .cons checked_number fun b hb => .nil ?_
  rw [ha, hb]
  exact .vector a b

theorem judged_length (data : Value β) : IsJudged site .length (.length data) := by
  show Judged site [data] (Builtin.length.Makes [data]) [⟨0, .sequence, data⟩] _
  simp only [plan, bind_assoc, pure_bind]
  refine .cons checked_sequence fun items hitems => .nil ?_
  rw [hitems]
  exact .length items

/-- The value, as the end of a slice, is this position. -/
def IsEnd (v : Value β) (stop : Option Int) : Prop :=
  ∃ n l, v = .number n ∧ n.whole? = some l ∧
    ∀ length, upTo length stop = upTo length (some (clamped l))

theorem checked_end {args : List (Value β)} {i : Nat} {v : Value β} :
    Checked site args (IsEnd v) ⟨i, .whole, v⟩ ((site.integer i v).map some) := by
  refine checked_integer.map fun w hw => ?_
  obtain ⟨n, l, hv, hl, rfl⟩ := hw
  exact ⟨n, l, hv, hl, fun _ => rfl⟩

/-- A missing end is as good as the last position. -/
theorem isEnd_default : IsEnd (.number (-1) : Value β) none := by
  refine ⟨-1, -1, rfl, by decide +kernel, fun length => ?_⟩
  show length = length + -1 + 1
  omega

theorem judged_slice (data start : Value β) (stop : Option (Value β)) :
    IsJudged site .slice (.slice data start stop) := by
  have hconditions : Builtin.slice.conditions (data :: start :: stop.toList)
      = ⟨0, .sequence, data⟩ :: ⟨1, .whole, start⟩ :: ifGiven 2 .whole stop [] := by
    cases stop <;> rfl
  have hfilled : Builtin.slice.filled (data :: start :: stop.toList)
      = [data, start, stop.getD (.number (-1))] := by
    cases stop <;> rfl
  simp only [IsJudged, arguments, hconditions, hfilled, plan, bind_assoc, pure_bind]
  refine .cons checked_sequence fun items hitems => .cons checked_integer fun w hw =>
    .optional checked_end isEnd_default fun e he => .nil ?_
  obtain ⟨n, k, rfl, hk, rfl⟩ := hw
  obtain ⟨n', l, hstop, hl, hend⟩ := he
  rw [hitems, hstop, cutOut, hend, ← cutOut]
  exact .slice hk hl

theorem judged_concat (values : List (Value β)) : IsJudged site .concat (.concat values) := by
  have hfilled : Builtin.concat.filled values = values := by
    show values ++ ([] : List (Value β)).drop _ = values
    rw [List.drop_nil, List.append_nil]
  simp only [IsJudged, arguments, hfilled]
  exact .nil (.concat values)

theorem judged_repeat (data count : Value β) : IsJudged site .repeat (.repeat data count) := by
  show Judged site [data, count] (Builtin.repeat.Makes [data, count])
    [⟨1, .count, count⟩, ⟨0, .repeatable, data⟩] _
  simp only [plan, bind_assoc]
  refine .cons checked_count fun c hc => ?_
  obtain ⟨n, k, rfl, hk, hk0, rfl⟩ := hc
  split
  case isTrue hempty =>
    show Judged site _ _ _ (.error (site.blameArgument 0 .data data.display))
    refine .single (.violated (fun hmet => ?_) rfl _)
    exact (Requirement.met_repeatable_iff hk hk0).1 hmet hempty
  case isFalse hsome =>
    exact .single (.met ((Requirement.met_repeatable_iff hk hk0).2 hsome) (.repeat hk))

theorem judged_adaLovelace (count : Value β) :
    IsJudged site .adaLovelace (.adaLovelace count) := by
  show Judged site [count] (Builtin.adaLovelace.Makes [count]) [⟨0, .tabulated, count⟩] _
  simp only [plan, bind_assoc, pure_bind]
  have hcount : Checked site [count] _ ⟨0, .count, count⟩ (site.count 0 count) := checked_count
  generalize site.count 0 count = x at hcount
  cases hcount with
  | violated hnot hkind got =>
    refine .single (Checked.violated (c := ⟨0, .tabulated, count⟩) ?_ hkind got)
    rintro ⟨n, k, hv, hk, hk0, -⟩
    exact hnot ⟨n, k, hv, hk, hk0⟩
  | met _ hc =>
    obtain ⟨n, k, rfl, hk, hk0, rfl⟩ := hc
    have hmet := Requirement.met_tabulated_iff hk hk0 [Value.number (β := β) n]
    dsimp only [bind, Except.bind]
    rcases e : Bernoulli.texts (clamped k).toNat with r | texts
    · obtain rfl := Bernoulli.texts_refusal e
      refine .single (.violated (fun h => ?_) rfl _)
      obtain ⟨texts, htexts⟩ := hmet.1 h
      rw [e] at htexts
      cases htexts
    · exact .single (.met (hmet.2 ⟨texts, e⟩) (.adaLovelace hk (Bernoulli.texts_eq_ok_iff.1 e)))

/-- **Every plan is judged by the conditions on its arguments.** -/
theorem judged_plan {b : Builtin} {args : List (Value β)} {i : Invocation (Value β)}
    (h : ofArguments? b args = some i) (hargs : i.arguments = args) :
    Judged site args (b.Makes (b.filled args)) (b.conditions args) (i.plan site >>= Prod.snd) := by
  suffices hjudged : IsJudged site b i from hargs ▸ hjudged
  unfold ofArguments? at h
  split at h <;> cases h
  · exact judged_range _ _ _
  · exact judged_square _ _ _
  · exact judged_parallelogram _ _ _ _ _
  · refine judged_merge _ _ fun hrotation => ?_
    rw [isSome_getElem?] at hrotation ⊢
    exact Nat.lt_of_succ_lt hrotation
  · exact judged_vector _ _
  · exact judged_concat _
  · exact judged_repeat _ _
  · exact judged_slice _ _ _
  · exact judged_length _
  · exact judged_adaLovelace _

end Invocation

/-! ### Calls -/

/-- Only one item of a list is the first without a property. -/
theorem eq_of_first {p : α → Prop} {before before' after after' : List α} {a a' : α}
    (hbefore : ∀ e ∈ before, p e) (ha : ¬ p a) (hbefore' : ∀ e ∈ before', p e) (ha' : ¬ p a')
    (h : before ++ a :: after = before' ++ a' :: after') : a = a' := by
  induction before generalizing before' with
  | nil =>
    rcases before' with - | ⟨e, before'⟩
    · exact (List.cons.inj h).1
    · obtain rfl := (List.cons.inj h).1
      exact absurd (hbefore' a List.mem_cons_self) ha
  | cons e before ih =>
    rcases before' with - | ⟨e', before'⟩
    · obtain rfl := (List.cons.inj h).1
      exact absurd (hbefore e List.mem_cons_self) ha'
    · rw [List.forall_mem_cons] at hbefore hbefore'
      exact ih hbefore.2 hbefore'.2 (List.cons.inj h).2

/-- The stop is a fault of this kind at the line and the column of the offset, or the crash for
an offset that has none. -/
def Stop.IsAt (source : Text) (offset : Nat) (kind : FaultKind) (s : Stop) : Prop :=
  (∀ p, source.position? offset = some p →
    ∃ f, s = .fault f ∧ f.kind = kind ∧ f.line = p.line ∧ f.column = p.column) ∧
  (source.position? offset = none → s = .crash .splitCharacter)

theorem Stop.isAt_at (source : Text) (offset : Nat) (wanted : Wanted) (got : Option Text) :
    (Stop.at source offset wanted got).IsAt source offset wanted.kind := by
  unfold IsAt Stop.at Fault.at?
  rcases source.position? offset with - | p
  · exact ⟨nofun, fun _ => rfl⟩
  · refine ⟨?_, nofun⟩
    rintro _ ⟨⟩
    exact ⟨_, rfl, rfl, rfl, rfl⟩

/-- **Built-in operations fail just on bad arguments, and blame the first of them.**  Take a
number of arguments that the operation accepts, a site with an offset for each of them, and a
machine with no request pending.  All the arguments have a place in an invocation of the
operation.  The call comes to a value just if all conditions on the arguments are met, and that
is what the operation makes of the arguments and the defaults of those that are missing.
Otherwise the call stops with a fault of the kind of the first condition that is not met, at the
offset of its argument.  The machine is left as it is. -/
theorem calls_blame_first_bad_argument {b : Builtin} {args : List (Value β)}
    (harity : b.arity.accepts args.length) {site : Site}
    (hsite : site.arguments.length = args.length) {m : Machine β ε} (hm : m.cancelled = false)
    (run : Option (β → Action β ε (Value β))) :
    (∃ i, Invocation.ofArguments? b args = some i ∧ i.arguments = args) ∧
    ((∃ v m', Action.call run site (.builtin b) args m = .ok v m') ↔
      ∀ c ∈ b.conditions args, c.Met args) ∧
    (∀ v m', Action.call run site (.builtin b) args m = .ok v m' →
      b.Makes (b.filled args) v ∧ m' = m) ∧
    (∀ before c after, b.conditions args = before ++ c :: after →
      (∀ e ∈ before, e.Met args) → ¬ c.Met args →
      ∃ offset stop, site.arguments[c.index]? = some offset ∧
        Action.call run site (.builtin b) args m = .error stop m ∧
        stop.IsAt site.source offset c.requirement.kind) := by
  obtain ⟨i, hi, hargs⟩ := Invocation.exists_of_accepts harity
  refine ⟨⟨i, hi, hargs⟩, ?_⟩
  have hjudged : Judged site args _ _ _ := Invocation.judged_plan hi hargs
  rw [Action.call_of_calm run site harity hi hm]
  generalize i.plan site >>= Prod.snd = x at hjudged
  cases hjudged with
  | @met v hmet hmakes =>
    refine ⟨⟨fun _ => hmet, fun _ => ⟨v, m, rfl⟩⟩, ?_, fun before c after hc _ hnot => ?_⟩
    · rintro _ _ ⟨⟩
      exact ⟨hmakes, rfl⟩
    · exact absurd (hmet c (hc ▸ List.mem_append_right _ List.mem_cons_self)) hnot
  | @violated before' after' c' wanted hconditions hbefore' hnot' hkind got =>
    have hmem : c' ∈ b.conditions args :=
      hconditions ▸ List.mem_append_right _ List.mem_cons_self
    refine ⟨⟨?_, fun hmet => absurd (hmet c' hmem) hnot'⟩, nofun, ?_⟩
    · rintro ⟨_, _, ⟨⟩⟩
    · intro before c after hc hbefore hnot
      obtain rfl : c = c' := eq_of_first hbefore hnot hbefore' hnot' (hc.symm.trans hconditions)
      have hlt : c.index < site.arguments.length := by
        rw [hsite]
        exact (List.getElem?_eq_some_iff.1 (Builtin.getElem?_of_mem_conditions hmem).2).1
      have hoffset := List.getElem?_eq_getElem hlt
      refine ⟨_, _, hoffset, rfl, ?_⟩
      rw [Site.blameArgument, Site.argument, hoffset, ← hkind]
      exact Stop.isAt_at _ _ _ _

/-- The data of a repetition cannot be repeated and its count is no number: the count is blamed,
which is on the second line, in its third column.  With a count of zero there is nothing wrong. -/
theorem calls_blame_first_bad_argument_repeat :
    let site : Site := ⟨"repeat(é\n  \"é\")".toList, ⟨0, 6⟩, [7, 12]⟩
    let bad : List (Value Unit) := [.sequence [], .string "é".toList]
    let good : List (Value Unit) := [.sequence [], .number 0]
    let m : Machine Unit Unit := .initial ()
    Builtin.repeat.arity.accepts bad.length ∧ Builtin.repeat.arity.accepts good.length ∧
      site.arguments.length = bad.length ∧ site.arguments.length = good.length ∧
      m.cancelled = false ∧
      (∃ f, Action.call none site (.builtin .repeat) bad m = .error (.fault f) m ∧
        f.kind = .number ∧ f.line = 2 ∧ f.column = 3) ∧
      ∃ v m', Action.call none site (.builtin .repeat) good m = .ok v m' := by
  intro site bad good m
  have hbad : Builtin.repeat.arity.accepts bad.length := by decide
  have hgood : Builtin.repeat.arity.accepts good.length := by decide
  have hsite : site.arguments.length = bad.length := rfl
  have hsite' : site.arguments.length = good.length := rfl
  have hm : m.cancelled = false := rfl
  refine ⟨hbad, hgood, hsite, hsite', hm, ?_, ?_⟩
  · obtain ⟨-, -, -, hblame⟩ := calls_blame_first_bad_argument hbad hsite hm none
    have hnot : ¬ Condition.Met bad ⟨1, .count, .string "é".toList⟩ := by
      rintro ⟨_, _, ⟨⟩, _⟩
    obtain ⟨_, stop, ⟨⟩, hcall, hat, -⟩ :=
      hblame [] ⟨1, .count, .string "é".toList⟩ [⟨0, .repeatable, .sequence []⟩] rfl nofun hnot
    have hposition : site.source.position? 12 = some ⟨2, 3, "\"".toList⟩ := by decide
    obtain ⟨f, rfl, hkind, hline, hcolumn⟩ := hat _ hposition
    exact ⟨f, hcall, hkind, hline, hcolumn⟩
  · obtain ⟨-, hsuccess, -⟩ := calls_blame_first_bad_argument hgood hsite' hm none
    have hzero : Number.whole? 0 = some 0 := by decide +kernel
    refine hsuccess.2 fun c hc => ?_
    obtain rfl | rfl : c = ⟨1, .count, .number 0⟩ ∨ c = ⟨0, .repeatable, .sequence []⟩ := by
      have hmem : c ∈ [⟨1, .count, .number 0⟩, ⟨0, .repeatable, .sequence []⟩] := hc
      rwa [List.mem_cons, List.mem_singleton] at hmem
    · exact ⟨0, 0, rfl, hzero, Int.le_refl 0⟩
    · exact fun _ => ⟨0, rfl, hzero⟩

end DrawLang
