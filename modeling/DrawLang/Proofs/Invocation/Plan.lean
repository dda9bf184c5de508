/-
DrawLang/Proofs/Invocation/Plan.lean

Calls of anything but a function, in a normal form.  Such a call looks at the
machine in one place only, the checkpoints for the items that it makes.  Before
them it checks its arguments, behind them it yields its result, and both are
pure: together they are the *plan* of the call, and `settle` carries out a plan.

Main statements: every built-in operation settles its plan
(`perform_eq_settle`), hence so does every call of anything but a function
(`call_eq_settle`); and what stops a plan blames the call or one of its arguments,
for a misuse (`Value.blamed_plan`).  What holds of all plans therefore holds of
all these calls.
-/
import DrawLang.Call
import DrawLang.Proofs.Action.Ending
import DrawLang.Proofs.Bernoulli.Refusals

namespace DrawLang

variable {β ε α γ : Type}

/-! ### Carrying out a plan -/

namespace Action

/-- Carry out a plan: stop as it says, or pass the checkpoints for as many
items as it says and yield the result. -/
def settle (site : Site) (plan : Except Stop (Nat × Except Stop α)) : Action β ε α := do
  let (count, result) ← check plan
  checkpoints site count
  check result

theorem settle_bind (site : Site) (x : Except Stop γ) (f : γ → Except Stop (Nat × Except Stop α)) :
    (settle site (x >>= f) : Action β ε α) = check x >>= fun a => settle site (f a) := by
  rcases x with s | a <;> rfl

theorem settle_pure (site : Site) (count : Nat) (result : Except Stop α) :
    (settle site (pure (count, result)) : Action β ε α)
      = checkpoints site count >>= fun _ => check result :=
  rfl

end Action

/-! ### The plans of built-in operations -/

/-- What an invocation checks and yields. -/
def Invocation.plan (site : Site) : Invocation (Value β) → Except Stop (Nat × Except Stop (Value β))
  | .range count start step => do
    let count ← site.count 0 count
    let start ← site.number 1 start
    let step ← Site.optional 1 (site.number 2) step
    return (count, .ok (.sequence (Value.numbers count start step)))
  | .concat values =>
    let items := values.flatMap Value.spread
    return (items.length, .ok (.sequence items))
  | .repeat data count => do
    let count ← site.count 1 count
    let items := data.spread
    if items.isEmpty ∧ 0 < count then throw (site.blameArgument 0 .data data.display)
    return (count, .ok (.sequence (Value.cycle items count)))
  | .slice data start stop => do
    let items ← site.sequence 0 data
    let start ← site.integer 1 start
    let stop ← Site.optional none (fun v => (site.integer 2 v).map some) stop
    return (0, .ok (.sequence (Value.cutOut items start stop)))
  | .length data => do
    let items ← site.sequence 0 data
    return (0, .ok (.number (Float.ofNat items.length)))
  | .adaLovelace count => do
    let count ← site.count 0 count
    return (count,
      match Bernoulli.texts count with
      | .ok texts => .ok (.sequence (texts.map .string))
      | .error (.crash c) => .error (.crash c)
      | .error _ => .error (site.blameArgument 0 .smallerCount (Decimal.row count)))
  | .square size color rotation => do
    let size ← site.number 0 size
    let color ← site.color 1 color
    let rotation ← Site.optional 0 (site.number 2) rotation
    return (0, .ok (.shape (.square size color rotation)))
  | .parallelogram base height offset color rotation => do
    let base ← site.number 0 base
    let height ← site.number 1 height
    let offset ← site.number 2 offset
    let color ← site.color 3 color
    let rotation ← Site.optional 0 (site.number 4) rotation
    return (0, .ok (.shape (.parallelogram base height offset color rotation)))
  | .merge first second anchor rotation => do
    let first ← site.shape 0 first
    let second ← site.shape 1 second
    let anchor ← Site.optional Vector.zero (site.vector 2) anchor
    let rotation ← Site.optional 0 (site.number 3) rotation
    return (0, .ok (.shape (.composite first second anchor rotation)))
  | .vector x y => do
    let x ← site.number 0 x
    let y ← site.number 1 y
    return (0, .ok (.vector ⟨x, y⟩))

theorem Action.perform_eq_settle (site : Site) (i : Invocation (Value β)) :
    (perform site i : Action β ε (Value β)) = settle site (i.plan site) := by
  cases i with
  | range count start step =>
    simp only [perform, range, Invocation.plan, settle_bind, settle_pure]
    rfl
  | concat values => rfl
  | «repeat» data count =>
    simp only [perform, «repeat», Invocation.plan, settle_bind]
    congr 1
    funext n
    split <;> rfl
  | slice data start stop =>
    simp only [perform, slice, Invocation.plan, settle_bind, settle_pure]
    rfl
  | length data =>
    simp only [perform, length, Invocation.plan, settle_bind, settle_pure]
    rfl
  | adaLovelace count =>
    simp only [perform, adaLovelace, Invocation.plan, settle_bind, settle_pure]
    -- behind the count and the checkpoints both ask for the same numbers
    congr 1
    funext n
    congr 1
    funext _
    rcases Bernoulli.texts n with (_ | _ | c) | texts <;> rfl
  | square | parallelogram | merge | vector =>
    simp only [perform, square, parallelogram, merge, vector, Invocation.plan, settle_bind,
      settle_pure]
    rfl

/-! ### The plans of calls -/

/-- What a call of a sequence checks and yields. -/
def Site.item (site : Site) (items : List (Value β)) :
    List (Value β) → Except Stop (Value β)
  | [] => .error (Action.blameArity site (.between 1 2) 0)
  | position :: more =>
    if 1 < more.length then
      .error (Action.blameArity site (.between 1 2) (position :: more).length)
    else do
      let i ← site.integer 0 position
      match (Action.itemAt? items i).or more.head? with
      | some v => return v
      | none => throw (site.blameArgument 0 (.index items.length) (Number.integerText i))

/-- What a call of anything but a function checks and yields. -/
def Value.plan (site : Site) (args : List (Value β)) :
    Value β → Except Stop (Nat × Except Stop (Value β))
  | .sequence items => do
    let v ← site.item items args
    return (0, .ok v)
  | .builtin b =>
    match b.arity.accepts args.length, Invocation.ofArguments? b args with
    | true, some i => i.plan site
    | _, _ => .error (Action.blameArity site b.arity args.length)
  | _ => .error (site.blame .callable site.text)

namespace Action

theorem callSequence_eq_settle (site : Site) (items args : List (Value β)) :
    (callSequence site items args : Action β ε (Value β))
      = settle site ((Value.sequence items).plan site args) := by
  rcases args with - | ⟨position, more⟩
  · rfl
  · simp only [callSequence, Value.plan, Site.item]
    split
    · rfl
    · simp only [settle_bind, bind_assoc]
      congr 1
      funext i
      rcases (itemAt? items i).or more.head? with - | v <;> rfl

theorem callBuiltin_eq_settle (site : Site) (b : Builtin) (args : List (Value β)) :
    (callBuiltin site b args : Action β ε (Value β))
      = settle site ((Value.builtin b).plan site args) := by
  simp only [callBuiltin, Value.plan]
  rcases b.arity.accepts args.length with - | -
  · rfl
  · rcases Invocation.ofArguments? b args with - | i
    · rfl
    · exact perform_eq_settle site i

/-- **A call is one of a function or settles a plan.** -/
theorem call_eq_settle (run : Option (β → Action β ε (Value β))) (site : Site)
    (callee : Value β) (args : List (Value β)) (h : ∀ f, callee ≠ .function f) :
    call run site callee args = settle site (callee.plan site args) := by
  cases callee with
  | sequence items => exact callSequence_eq_settle site items args
  | builtin b => exact callBuiltin_eq_settle site b args
  | function f => exact absurd rfl (h f)
  | number | string | color | vector | shape => rfl

end Action

/-! ### What stops a plan -/

/-- The kinds of faults that blame a call or its arguments. -/
def misuses : List FaultKind := [.number, .color, .data, .call, .arity, .shape, .vector]

/-- The stop blames a call or its arguments, or is a crash that tells of no missing frames. -/
def Stop.Misuse : Stop → Prop
  | .fault f => f.kind ∈ misuses
  | .crash c => (Stop.crash c).HasFrames

theorem Stop.Misuse.hasFrames {s : Stop} (h : s.Misuse) : s.HasFrames := by
  rcases s with f | c
  · intro count depth e
    cases e
  · exact h

theorem Stop.misuse_at (source : Text) (offset : Nat) {wanted : Wanted} (got : Option Text)
    (h : wanted.kind ∈ misuses) : (Stop.at source offset wanted got).Misuse := by
  unfold Stop.at Fault.at?
  rcases source.position? offset with - | p
  · intro count depth e
    cases e
  · exact h

/-- The stop is no fault of this kind. -/
def Stop.Avoids (kind : FaultKind) (s : Stop) : Prop := ∀ f, s = .fault f → f.kind ≠ kind

namespace Stop

variable {kind : FaultKind}

theorem avoids_crash (c : Crash) : (Stop.crash c).Avoids kind := nofun

theorem avoids_at (source : Text) (offset : Nat) {wanted : Wanted} (got : Option Text)
    (h : wanted.kind ≠ kind) : (Stop.at source offset wanted got).Avoids kind := by
  unfold Stop.at Fault.at?
  rcases source.position? offset with - | p
  · exact avoids_crash _
  · intro f hf
    cases hf
    exact h

theorem Misuse.avoids {s : Stop} (h : s.Misuse) (hkind : kind ∉ misuses) : s.Avoids kind := by
  rintro f rfl rfl
  exact hkind h

end Stop

/-- The stop blames the callee or an argument at a site for a misuse. -/
inductive Site.Blames (site : Site) : Stop → Prop
  | callee {wanted : Wanted} (h : wanted.kind ∈ misuses) (got : Text) :
    Blames site (site.blame wanted got)
  | argument (i : Nat) {wanted : Wanted} (h : wanted.kind ∈ misuses) (got : Text) :
    Blames site (site.blameArgument i wanted got)

theorem Site.Blames.misuse {site : Site} {s : Stop} (h : site.Blames s) : s.Misuse := by
  cases h with
  | callee h got => exact Stop.misuse_at _ _ _ h
  | argument i h got => exact Stop.misuse_at _ _ _ h

/-- A computation only stops with stops of a kind. -/
def Stopped (B : Stop → Prop) (x : Except Stop α) : Prop := ∀ s, x = .error s → B s

section Stopped

variable {B B' : Stop → Prop}

theorem Stopped.mono {x : Except Stop α} (h : Stopped B x) (hB : ∀ s, B s → B' s) :
    Stopped B' x :=
  fun s hs => hB s (h s hs)

theorem stopped_ok (a : α) : Stopped B (.ok a) := by
  intro s h
  cases h

theorem stopped_error {s : Stop} (hs : B s) : Stopped B (.error s : Except Stop α) := by
  intro s' h
  cases h
  exact hs

theorem stopped_bind {x : Except Stop α} {f : α → Except Stop γ} (hx : Stopped B x)
    (hf : ∀ a, Stopped B (f a)) : Stopped B (x >>= f) := by
  rcases x with s | a
  · exact stopped_error (hx s rfl)
  · exact hf a

end Stopped

/-- A computation only stops by misuse. -/
abbrev Misused (x : Except Stop α) : Prop := Stopped Stop.Misuse x

namespace Site

/-- A computation only stops by blaming a site. -/
abbrev Blamed (site : Site) (x : Except Stop α) : Prop := Stopped site.Blames x

variable (site : Site) (i : Nat)

theorem blamed_expect {wanted : Wanted} (h : wanted.kind ∈ misuses)
    (view : Value β → Option α) (v : Value β) : site.Blamed (site.expect i wanted view v) := by
  unfold expect
  split
  · exact stopped_ok _
  · exact stopped_error (.argument i h _)

theorem blamed_number (v : Value β) : site.Blamed (site.number i v) :=
  blamed_expect site i (by decide) _ v

theorem blamed_color (v : Value β) : site.Blamed (site.color i v) :=
  blamed_expect site i (by decide) _ v

theorem blamed_sequence (v : Value β) : site.Blamed (site.sequence i v) :=
  blamed_expect site i (by decide) _ v

theorem blamed_shape (v : Value β) : site.Blamed (site.shape i v) :=
  blamed_expect site i (by decide) _ v

theorem blamed_vector (v : Value β) : site.Blamed (site.vector i v) :=
  blamed_expect site i (by decide) _ v

theorem blamed_integer (v : Value β) : site.Blamed (site.integer i v) := by
  unfold integer
  rcases e : site.number i v with s | n
  · exact stopped_error (blamed_number site i v s e)
  · dsimp only
    split
    · exact stopped_ok _
    · exact stopped_error (.argument i (by decide) _)

theorem blamed_count (v : Value β) : site.Blamed (site.count i v) := by
  unfold count
  rcases e : site.integer i v with s | k
  · exact stopped_error (blamed_integer site i v s e)
  · dsimp only
    split
    · exact stopped_ok _
    · exact stopped_error (.argument i (by decide) _)

theorem blamed_optional {default : α} {check : Value β → Except Stop α}
    (h : ∀ v, site.Blamed (check v)) (v : Option (Value β)) :
    site.Blamed (optional default check v) := by
  rcases v with - | v
  · exact stopped_ok default
  · exact h v

end Site

open Site

/-- What a plan comes to, the checkpoints aside, is a value or a stop that blames the site. -/
theorem Invocation.blamed_plan (site : Site) (i : Invocation (Value β)) :
    site.Blamed (i.plan site >>= Prod.snd) := by
  cases i with
  | range count start step =>
    simp only [Invocation.plan, bind_assoc, pure_bind]
    refine stopped_bind (blamed_count site 0 _) fun count => ?_
    refine stopped_bind (blamed_number site 1 _) fun start => ?_
    refine stopped_bind (blamed_optional site (blamed_number site 2) _) fun step => ?_
    exact stopped_ok _
  | concat values => exact stopped_ok _
  | «repeat» data count =>
    simp only [Invocation.plan, bind_assoc]
    refine stopped_bind (blamed_count site 1 _) fun count => ?_
    split
    · exact stopped_error (.argument 0 (by decide) _)
    · exact stopped_ok _
  | slice data start stop =>
    simp only [Invocation.plan, bind_assoc, pure_bind]
    refine stopped_bind (blamed_sequence site 0 _) fun items => ?_
    refine stopped_bind (blamed_integer site 1 _) fun start => ?_
    refine stopped_bind (blamed_optional site (fun v => ?_) _) fun stop => stopped_ok _
    exact stopped_bind (blamed_integer site 2 v) fun k => stopped_ok (some k)
  | length data =>
    simp only [Invocation.plan, bind_assoc, pure_bind]
    exact stopped_bind (blamed_sequence site 0 _) fun items => stopped_ok _
  | adaLovelace count =>
    simp only [Invocation.plan, bind_assoc, pure_bind]
    refine stopped_bind (blamed_count site 0 _) fun count => ?_
    rcases e : Bernoulli.texts count with r | texts
    · obtain rfl := Bernoulli.texts_refusal e
      exact stopped_error (.argument 0 (by decide) _)
    · exact stopped_ok _
  | square size color rotation =>
    simp only [Invocation.plan, bind_assoc, pure_bind]
    refine stopped_bind (blamed_number site 0 _) fun size => ?_
    refine stopped_bind (blamed_color site 1 _) fun color => ?_
    refine stopped_bind (blamed_optional site (blamed_number site 2) _) fun rotation => ?_
    exact stopped_ok _
  | parallelogram base height offset color rotation =>
    simp only [Invocation.plan, bind_assoc, pure_bind]
    refine stopped_bind (blamed_number site 0 _) fun base => ?_
    refine stopped_bind (blamed_number site 1 _) fun height => ?_
    refine stopped_bind (blamed_number site 2 _) fun offset => ?_
    refine stopped_bind (blamed_color site 3 _) fun color => ?_
    refine stopped_bind (blamed_optional site (blamed_number site 4) _) fun rotation => ?_
    exact stopped_ok _
  | merge first second anchor rotation =>
    simp only [Invocation.plan, bind_assoc, pure_bind]
    refine stopped_bind (blamed_shape site 0 _) fun first => ?_
    refine stopped_bind (blamed_shape site 1 _) fun second => ?_
    refine stopped_bind (blamed_optional site (blamed_vector site 2) _) fun anchor => ?_
    refine stopped_bind (blamed_optional site (blamed_number site 3) _) fun rotation => ?_
    exact stopped_ok _
  | vector x y =>
    simp only [Invocation.plan, bind_assoc, pure_bind]
    refine stopped_bind (blamed_number site 0 _) fun x => ?_
    exact stopped_bind (blamed_number site 1 _) fun y => stopped_ok _

theorem Site.blames_arity (site : Site) (arity : Arity) (count : Nat) :
    site.Blames (Action.blameArity site arity count) := by
  have h : (Wanted.arguments arity.display).kind ∈ misuses :=
    show FaultKind.arity ∈ misuses by decide
  exact .callee h _

theorem Action.misuse_blameArity (site : Site) (arity : Arity) (count : Nat) :
    (Action.blameArity site arity count).Misuse :=
  (site.blames_arity arity count).misuse

theorem Site.blamed_item (site : Site) (items args : List (Value β)) :
    site.Blamed (site.item items args) := by
  rcases args with - | ⟨position, more⟩
  · exact stopped_error (site.blames_arity _ _)
  · simp only [Site.item]
    split
    · exact stopped_error (site.blames_arity _ _)
    · refine stopped_bind (blamed_integer site 0 _) fun i => ?_
      split
      · exact stopped_ok _
      · have h : (Wanted.index items.length).kind ∈ misuses :=
          show FaultKind.data ∈ misuses by decide
        exact stopped_error (.argument 0 h _)

/-- **What stops a call of anything but a function blames the call or one of its
arguments**, unless it is stopped at its checkpoints. -/
theorem Value.blamed_plan (site : Site) (args : List (Value β)) (callee : Value β) :
    site.Blamed (callee.plan site args >>= Prod.snd) := by
  cases callee with
  | sequence items =>
    simp only [Value.plan, bind_assoc, pure_bind]
    exact stopped_bind (blamed_item site items args) fun v => stopped_ok v
  | builtin b =>
    simp only [Value.plan]
    split
    · exact Invocation.blamed_plan site _
    · exact stopped_error (site.blames_arity _ _)
  | number | string | color | vector | shape | function =>
    exact stopped_error (.callee (by decide) _)

/-- What stops a call of anything but a function is a misuse, unless it is
stopped at its checkpoints. -/
theorem Value.misused_plan (site : Site) (args : List (Value β)) (callee : Value β) :
    Misused (callee.plan site args >>= Prod.snd) :=
  (Value.blamed_plan site args callee).mono fun _ => Site.Blames.misuse

end DrawLang
