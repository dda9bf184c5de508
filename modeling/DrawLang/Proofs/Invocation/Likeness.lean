/-
DrawLang/Proofs/Invocation/Likeness.lean

Calls of like values with like arguments.  Anything but a function that is
called settles a plan, and the plans of two such calls tally: they stop alike,
or they come to as many items and to like results.

The arguments of both calls are read off one list of pairs.  Since finding the
places of arguments does not look at them (`Invocation.ofArguments?_map`), both
calls then come from one invocation of pairs, and one case for each operation is
enough.

Main statement: `Likeness.tally_plan`.
-/
import DrawLang.Proofs.Action.Agreement
import DrawLang.Proofs.Value.Likeness

namespace DrawLang

variable {β β' α γ : Type}

theorem Invocation.ofArguments?_map (f : α → γ) (b : Builtin) (args : List α) :
    Invocation.ofArguments? b (args.map f) = (Invocation.ofArguments? b args).map (·.map f) := by
  -- no operation tells more than four arguments apart by their places
  cases b <;> rcases args with - | ⟨a, - | ⟨b, - | ⟨c, - | ⟨d, more⟩⟩⟩⟩ <;>
    simp [Invocation.ofArguments?, Invocation.map]

namespace Likeness

variable (L : Likeness β β')

/-- Two like values. -/
structure Pair where
  left : Value β
  right : Value β'
  like : L.value left right

theorem exists_pairs {vs : List (Value β)} {vs' : List (Value β')}
    (h : List.Forall₂ L.value vs vs') :
    ∃ ps : List L.Pair, vs = ps.map Pair.left ∧ vs' = ps.map Pair.right := by
  induction h with
  | nil => exact ⟨[], rfl, rfl⟩
  | cons hv _ ih =>
    obtain ⟨ps, rfl, rfl⟩ := ih
    exact ⟨⟨_, _, hv⟩ :: ps, rfl, rfl⟩

/-! ### Like items -/

theorem forall₂_map {f : α → Value β} {f' : α → Value β'} (h : ∀ a, L.value (f a) (f' a))
    (as : List α) : List.Forall₂ L.value (as.map f) (as.map f') := by
  rw [List.forall₂_map_left_iff, List.forall₂_map_right_iff, List.forall₂_same]
  exact fun a _ => h a

theorem getElem? {vs : List (Value β)} {vs' : List (Value β')} (h : List.Forall₂ L.value vs vs')
    (i : Nat) : Option.Rel L.value vs[i]? vs'[i]? := by
  induction h generalizing i with
  | nil => exact .none
  | cons hv _ ih =>
    rcases i with - | i
    · exact .some hv
    · exact ih i

theorem flatMap_spread (ps : List L.Pair) :
    List.Forall₂ L.value ((ps.map Pair.left).flatMap Value.spread)
      ((ps.map Pair.right).flatMap Value.spread) := by
  induction ps with
  | nil => exact .nil
  | cons p ps ih => exact List.rel_append (L.spread p.like) ih

theorem cycle {vs : List (Value β)} {vs' : List (Value β')} (h : List.Forall₂ L.value vs vs')
    (count : Nat) : List.Forall₂ L.value (Value.cycle vs count) (Value.cycle vs' count) := by
  unfold Value.cycle
  have hrange : List.Forall₂ (· = ·) (List.range count) (List.range count) :=
    List.forall₂_same.2 fun _ _ => rfl
  refine List.rel_filterMap (fun i i' hi => ?_) hrange
  obtain rfl : i = i' := hi
  simpa [h.length_eq] using L.getElem? h (i % vs'.length)

theorem cutOut {vs : List (Value β)} {vs' : List (Value β')} (h : List.Forall₂ L.value vs vs')
    (start : Int) (stop : Option Int) :
    List.Forall₂ L.value (Value.cutOut vs start stop) (Value.cutOut vs' start stop) := by
  unfold Value.cutOut
  rw [h.length_eq]
  exact List.forall₂_drop _ (List.forall₂_take _ h)

/-! ### Like plans -/

section Plans

variable (site : Site)

theorem tally_sequence (i : Nat) (p : L.Pair) :
    Tally (List.Forall₂ L.value) (site.sequence i p.left) (site.sequence i p.right) := by
  have hdisplay := L.display_eq p.like
  unfold Site.sequence Site.expect
  rcases p with ⟨v, v', h⟩
  dsimp only at hdisplay ⊢
  rw [hdisplay]
  cases L.alike h with
  | sequence hvs => exact .ok hvs
  | number | string | color | vector | shape | function | builtin => exact .error _

theorem optional_eq {default : α} {check : Value β → Except Stop α}
    {check' : Value β' → Except Stop α} (h : ∀ p : L.Pair, check p.left = check' p.right)
    (p : Option L.Pair) :
    Site.optional default check (p.map Pair.left)
      = Site.optional default check' (p.map Pair.right) := by
  rcases p with - | p
  · rfl
  · exact h p

theorem tally_optional_number (default : Number) (i : Nat) (p : Option L.Pair) :
    Site.optional default (site.number i) (p.map Pair.left)
      = Site.optional default (site.number i) (p.map Pair.right) :=
  L.optional_eq (fun p => L.number_eq site i p.like) p

theorem tally_pure {count : Nat} {r : Except Stop (Value β)} {r' : Except Stop (Value β')}
    (h : Tally L.value r r') : TallyPlans L.value (pure (count, r)) (pure (count, r')) :=
  .ok ⟨rfl, h⟩

/-- One invocation, with the left values and with the right ones. -/
theorem tally_perform (j : Invocation L.Pair) :
    TallyPlans L.value ((j.map Pair.left).plan site) ((j.map Pair.right).plan site) := by
  have hshape (s : Shape) : L.value (.shape s) (.shape s) := L.of_alike (.shape s)
  cases j with
  | range count start step =>
    refine tally_bind_eq (L.count_eq site 0 count.like) fun n => ?_
    refine tally_bind_eq (L.number_eq site 1 start.like) fun a => ?_
    refine tally_bind_eq (L.tally_optional_number site 1 2 step) fun d => ?_
    have hnumbers : List.Forall₂ L.value (Value.numbers n a d) (Value.numbers n a d) :=
      L.forall₂_map (fun _ => L.of_alike (.number _)) _
    exact L.tally_pure (.ok (L.of_alike (.sequence hnumbers)))
  | concat values =>
    have hitems := L.flatMap_spread values
    simp only [Invocation.map, Invocation.plan, hitems.length_eq]
    exact L.tally_pure (.ok (L.of_alike (.sequence hitems)))
  | «repeat» data count =>
    refine tally_bind_eq (L.count_eq site 1 count.like) fun n => ?_
    -- whether there is anything to repeat is asked of the items, of which there are as many
    have hitems := L.spread data.like
    have hempty : data.left.spread.isEmpty = data.right.spread.isEmpty := by
      rw [Bool.eq_iff_iff, List.isEmpty_iff_length_eq_zero, List.isEmpty_iff_length_eq_zero,
        hitems.length_eq]
    simp only [hempty, L.display_eq data.like]
    split
    · exact .error _
    · exact L.tally_pure (.ok (L.of_alike (.sequence (L.cycle hitems n))))
  | slice data start stop =>
    refine tally_bind (L.tally_sequence site 0 data) fun items items' hitems => ?_
    refine tally_bind_eq (L.integer_eq site 1 start.like) fun a => ?_
    refine tally_bind_eq (L.optional_eq (fun p => ?_) stop) fun b => ?_
    · rw [L.integer_eq site 2 p.like]
    · exact L.tally_pure (.ok (L.of_alike (.sequence (L.cutOut hitems a b))))
  | length data =>
    refine tally_bind (L.tally_sequence site 0 data) fun items items' hitems => ?_
    rw [hitems.length_eq]
    exact L.tally_pure (.ok (L.of_alike (.number _)))
  | adaLovelace count =>
    refine tally_bind_eq (L.count_eq site 0 count.like) fun n => L.tally_pure ?_
    rcases Bernoulli.texts n with (_ | _ | c) | texts
    · exact .error _
    · exact .error _
    · exact .error _
    · exact .ok (L.of_alike (.sequence (L.forall₂_map (fun t => L.of_alike (.string t)) texts)))
  | square size color rotation =>
    refine tally_bind_eq (L.number_eq site 0 size.like) fun a => ?_
    refine tally_bind_eq (L.color_eq site 1 color.like) fun c => ?_
    refine tally_bind_eq (L.tally_optional_number site 0 2 rotation) fun r => ?_
    exact L.tally_pure (.ok (hshape _))
  | parallelogram base height offset color rotation =>
    refine tally_bind_eq (L.number_eq site 0 base.like) fun a => ?_
    refine tally_bind_eq (L.number_eq site 1 height.like) fun b => ?_
    refine tally_bind_eq (L.number_eq site 2 offset.like) fun o => ?_
    refine tally_bind_eq (L.color_eq site 3 color.like) fun c => ?_
    refine tally_bind_eq (L.tally_optional_number site 0 4 rotation) fun r => ?_
    exact L.tally_pure (.ok (hshape _))
  | merge first second anchor rotation =>
    refine tally_bind_eq (L.shape_eq site 0 first.like) fun a => ?_
    refine tally_bind_eq (L.shape_eq site 1 second.like) fun b => ?_
    refine tally_bind_eq (L.optional_eq (fun p => L.vector_eq site 2 p.like) anchor) fun o => ?_
    refine tally_bind_eq (L.tally_optional_number site 0 3 rotation) fun r => ?_
    exact L.tally_pure (.ok (hshape _))
  | vector x y =>
    refine tally_bind_eq (L.number_eq site 0 x.like) fun a => ?_
    refine tally_bind_eq (L.number_eq site 1 y.like) fun b => ?_
    exact L.tally_pure (.ok (L.of_alike (.vector _)))

variable {args : List (Value β)} {args' : List (Value β')}

theorem tally_item {items : List (Value β)} {items' : List (Value β')}
    (hitems : List.Forall₂ L.value items items') (hargs : List.Forall₂ L.value args args') :
    Tally L.value (site.item items args) (site.item items' args') := by
  cases hargs with
  | nil => exact .error _
  | cons hposition hmore =>
    simp only [Site.item, List.length_cons, hmore.length_eq, hitems.length_eq]
    split
    · exact .error _
    · refine tally_bind_eq (L.integer_eq site 0 hposition) fun i => ?_
      have hat : Option.Rel L.value (Action.itemAt? items i) (Action.itemAt? items' i) := by
        unfold Action.itemAt?
        split
        · exact L.getElem? hitems _
        · exact .none
      generalize Action.itemAt? items i = r, Action.itemAt? items' i = r' at hat ⊢
      cases hat with
      | some hv => exact .ok hv
      | none =>
        cases hmore with
        | nil => exact .error _
        | cons hdefault _ => exact .ok hdefault

/-- **The plans of like calls tally.** -/
theorem tally_plan {callee : Value β} {callee' : Value β'} (h : L.value callee callee')
    (hargs : List.Forall₂ L.value args args') :
    TallyPlans L.value (callee.plan site args) (callee'.plan site args') := by
  cases L.alike h with
  | sequence hitems =>
    exact tally_bind (L.tally_item site hitems hargs) fun v v' hv => L.tally_pure (.ok hv)
  | builtin b =>
    -- both invocations are read off the pairs of arguments
    obtain ⟨ps, rfl, rfl⟩ := L.exists_pairs hargs
    simp only [Value.plan, Invocation.ofArguments?_map, List.length_map]
    rcases b.arity.accepts ps.length with - | -
    · exact .error _
    · rcases Invocation.ofArguments? b ps with - | j
      · exact .error _
      · exact L.tally_perform site j
  | number | string | color | vector | shape | function => exact .error _

end Plans

end Likeness

end DrawLang
