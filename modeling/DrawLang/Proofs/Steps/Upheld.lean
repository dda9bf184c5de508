/-
DrawLang/Proofs/Steps/Upheld.lean

What evaluation upholds.  Three properties go together: one of places in texts, one
of values, and one of parts of programs with the text they stand in.  `Upkeep` says
what they have to do with each other: a good part starts at a good place and has good
parts, a literal that is a good part makes a good function from good frames, and a
good function has a good body and keeps good values.

If so, whatever a moment holds stays good: what is to be done, what is pending,
what is bound and the value that something has ended with (`Moment.upheld_of_steps`).
Stops point at good places.  One stop does not point anywhere, the crash for frames
that are missing; that it does not come up is known of whole evaluations, and so it is
left open here.
-/
import DrawLang.Proofs.Action.Meeting
import DrawLang.Proofs.Environment.Holds
import DrawLang.Proofs.Steps.Basic
import DrawLang.Proofs.Tree.Part
import DrawLang.Proofs.Tree.Placed

namespace DrawLang

open DrawLang.Action

variable {ε : Type}

/-- Good places, good values and good parts of programs. -/
structure Upkeep (P : Text → Nat → Prop) (V : Value Code → Prop) (X : Text → Node → Prop) :
    Prop where
  start : ∀ {source n}, X source n → P source n.span.start
  definition : ∀ {source s}, X source (.scope s) →
    ∀ d ∈ s.definitions, P source d.span.start ∧ P source d.nameSpan.start
  child : ∀ {source n n'}, X source n → n.Child n' → X source n'
  plain : ∀ v : Value Code, v.IsPlain → V v
  literal : ∀ {source params body span}, X source (.expr (.function params body span)) →
    ∀ stamp frames, (∀ frame ∈ frames, Frame.Holds V frame) →
      V (.function ⟨stamp, none, params.map Param.name, frames, ⟨body, source⟩,
        Code.literalText params ⟨body, source⟩⟩)
  rename : ∀ {f : Function Code}, V (.function f) →
    ∀ stamp name, V (.function { f with stamp, name := some name })
  body : ∀ {f : Function Code}, V (.function f) → X f.body.source (.expr f.body.expr)
  kept : ∀ {f : Function Code}, V (.function f) → ∀ frame ∈ f.closure, Frame.Holds V frame
  plan : ∀ {callee : Value Code} {args : List (Value Code)}, V callee → (∀ v ∈ args, V v) →
    ∀ site {count : Nat} {v : Value Code}, callee.plan site args = .ok (count, .ok v) → V v

variable (P : Text → Nat → Prop) (V : Value Code → Prop) (X : Text → Node → Prop)

/-! ### Good moments -/

/-- The items of the argument lists are good. -/
def ListsUpheld (source : Text) (lists : List (Arguments Expr)) : Prop :=
  ∀ list ∈ lists, ∀ x ∈ list.items, X source (.expr x)

/-- The definition and its name start at good places, and its body is good. -/
structure Definition.Upheld (source : Text) (d : Definition Scope) : Prop where
  start : P source d.span.start
  name : P source d.nameSpan.start
  body : X source (.scope d.body)

/-- What is to be done is good. -/
def Task.Upheld : Task → Prop
  | .expr source x => X source (.expr x)
  | .scope source program => X source (.scope program)
  | .call site callee args => site.Placed P ∧ V callee ∧ ∀ v ∈ args, V v
  | .chain source callee ls => X source (.expr callee) ∧ ListsUpheld X source ls
  | .lists source callee span ls => V callee ∧ P source span.start ∧ ListsUpheld X source ls
  | .arguments source callee span list args todo more =>
    V callee ∧ P source span.start ∧ ListsUpheld X source (list :: more) ∧ (∀ v ∈ args, V v) ∧
      ∀ x ∈ todo, X source (.expr x)
  | .definitions source ds result =>
    (∀ d ∈ ds, Definition.Upheld P X source d) ∧ X source (.expr result)
  | .inside site frame frames body =>
    site.Placed P ∧ (∀ f ∈ frame :: frames, Frame.Holds V f) ∧ body.Upheld

/-- What is pending is good. -/
def Pending.Upheld : Pending → Prop
  | .lists source span ls => P source span.start ∧ ListsUpheld X source ls
  | .argument source callee span list args todo more =>
    (Task.arguments source callee span list args todo more).Upheld P V X
  | .definition source first ds result =>
    (∀ d ∈ first :: ds, Definition.Upheld P X source d) ∧ X source (.expr result)
  | .frames _ | .level => True

/-- The stop points at a good place, unless it tells of missing frames. -/
def Stop.Aimed (s : Stop) : Prop := s.HasFrames → s.Pointed P

/-- What is to be done is good, and so is what something has ended with. -/
def Focus.Upheld : Focus → Prop
  | .task t => t.Upheld P V X
  | .ended r => Fits V (Stop.Aimed P) r

/-- All that there is at a moment is good. -/
structure Moment.Upheld (c : Moment ε) : Prop where
  focus : c.focus.Upheld P V X
  pending : ∀ p ∈ c.pending, p.Upheld P V X
  environment : c.machine.environment.Holds V

variable {P V X}

theorem Stop.Pointed.aimed {s : Stop} (h : s.Pointed P) : s.Aimed P := fun _ => h

/-! ### Actions -/

namespace Upkeep

variable (h : Upkeep P V X)

include h

/-- A good part of a program is one at its start. -/
theorem site {source : Text} {n : Node} (hn : X source n) : (Site.plain source n.span).Placed P :=
  Site.placed_plain (h.start hn)

theorem definitions {source : Text} {s : Scope} (hs : X source (.scope s)) :
    ∀ d ∈ s.definitions, Definition.Upheld P X source d := by
  intro d hd
  obtain ⟨hstart, hname⟩ := h.definition hs d hd
  exact ⟨hstart, hname, h.child hs (.definition hd)⟩

theorem arguments {source : Text} {callee : Expr} {lists : List (Arguments Expr)} {span : Span}
    (hx : X source (.expr (.calls callee lists span))) : ListsUpheld X source lists :=
  fun _ hlist _ hx' => h.child hx (.argument callee span hlist hx')

/-- The site of a call in a good chain. -/
theorem site_of_list {source : Text} {span : Span} {list : Arguments Expr}
    (hspan : P source span.start) (hlist : ∀ x ∈ list.items, X source (.expr x)) :
    (list.site source span).Placed P := by
  refine ⟨hspan, fun i hi => ?_⟩
  obtain ⟨x, hx, rfl⟩ := List.mem_map.1 hi
  exact h.start (hlist x hx)

end Upkeep

namespace Action

/-- On machines where what is bound is good, the action comes to a good value or to a
stop at a good place. -/
abbrev Aims (P : Text → Nat → Prop) (V : Value Code → Prop) {α : Type} (Q : α → Prop)
    (a : Action Code ε α) : Prop :=
  Meets (fun m => m.environment.Holds V) Q (Stop.Aimed P) a

theorem aims_checkpoint {site : Site} (h : site.Placed P) :
    Aims P V (fun _ => True) (checkpoint site : Action Code ε Unit) :=
  meets_checkpoint (fun _ hm => hm) (h.blame _ _).aimed

theorem aims_remove {count : Nat} {r : Except Stop (Value Code)} (h : Fits V (Stop.Aimed P) r) :
    Aims P V V (remove count >>= fun _ => check r : Action Code ε (Value Code)) := by
  refine meets_bind (meets_remove (fun _ _ hm he => hm.pop? he) fun depth hframes => ?_)
    fun _ _ => meets_check h
  exact absurd rfl (hframes count depth)

end Action

namespace Upkeep

variable (h : Upkeep P V X)

include h

theorem aims_value {source : Text} {span : Span} {a : Atom}
    (hx : X source (.expr (.atom a span))) :
    Aims P V V (a.value source span : Action Code ε (Value Code)) := by
  rcases a with n | t | c | b | id
  case name =>
    have hstart : P source span.start := h.start hx
    have hsite : Site.Placed P ⟨source, span, [span.start]⟩ :=
      ⟨hstart, List.forall_mem_singleton.2 hstart⟩
    exact meets_known (fun _ _ hm => hm.find?) (hsite.blameArgument 0 _ id).aimed
  all_goals exact meets_pure (h.plain _ trivial)

theorem aims_close {source : Text} {params : List Param} {body : Expr} {span : Span}
    (hx : X source (.expr (.function params body span))) :
    Aims P V V (close (params.map Param.name) ⟨body, source⟩
      (Code.literalText params ⟨body, source⟩) : Action Code ε (Value Code)) :=
  meets_close (fun _ hm => hm) fun _ stamp hm => h.literal hx stamp _ hm

theorem aims_define {site : Site} (hsite : site.Placed P) (name : Text) {v : Value Code}
    (hv : V v) : Aims P V (fun _ => True) (define site name v : Action Code ε Unit) := by
  refine meets_define (fun _ hm => hm) (fun _ w hm hw => hm.insert name hw)
    (hsite.blameArgument 0 _ name).aimed hv ?_
  rintro f stamp rfl
  exact h.rename hv stamp name

theorem aims_call_of_plan {site : Site} (hsite : site.Placed P) {callee : Value Code}
    {args : List (Value Code)} (hplain : ∀ f, callee ≠ .function f) (hcallee : V callee)
    (hargs : ∀ v ∈ args, V v) :
    Aims P V V (Action.call none site callee args : Action Code ε (Value Code)) := by
  rw [call_eq_settle none site callee args hplain]
  refine meets_settle (fun _ hm => hm) (hsite.blame _ _).aimed ?_
  have hblamed := Value.blamed_plan site args callee
  have hplan : ∀ count v, callee.plan site args = .ok (count, .ok v) → V v :=
    fun _ _ => h.plan hcallee hargs site
  generalize callee.plan site args = plan at hblamed hplan ⊢
  rcases plan with s | ⟨count, s | v⟩
  · exact (hsite.of_blames (hblamed s rfl)).aimed
  · exact (hsite.of_blames (hblamed s rfl)).aimed
  · exact hplan count v rfl

end Upkeep

/-! ### Steps -/

namespace Moment

variable {pending : List Pending} {m : Machine Code ε}

theorem upheld_after {a : Action Code ε (Value Code)} (ha : Aims P V V a)
    (hpending : ∀ p ∈ pending, p.Upheld P V X) (hm : m.environment.Holds V) :
    (after pending (a m)).Upheld P V X := by
  have hend := ha m hm
  rcases e : a m with ⟨v, m'⟩ | ⟨s, m'⟩
  · obtain ⟨hm', hv⟩ := (ends_of_ok e).1 hend
    exact ⟨hv, hpending, hm'⟩
  · obtain ⟨hm', hs⟩ := (ends_of_error e).1 hend
    exact ⟨hs, hpending, hm'⟩

theorem upheld_enter {site : Site} (hsite : site.Placed P) {body : Task}
    (hbody : body.Upheld P V X) (hpending : ∀ p ∈ pending, p.Upheld P V X)
    (hm : m.environment.Holds V) : (enter pending m site body).Upheld P V X := by
  unfold enter
  split
  · exact ⟨(hsite.blame _ _).aimed, hpending, hm⟩
  · exact ⟨hbody, List.forall_mem_cons.2 ⟨trivial, hpending⟩, hm⟩

theorem upheld_start (h : Upkeep P V X) {t : Task} (ht : t.Upheld P V X)
    (hpending : ∀ p ∈ pending, p.Upheld P V X) (hm : m.environment.Holds V) :
    (start pending m t).Upheld P V X := by
  cases t with
  | expr source x =>
    cases x with
    | atom => exact upheld_after (h.aims_value ht) hpending hm
    | function => exact upheld_after (h.aims_close ht) hpending hm
    | calls callee lists span =>
      have hcallee : X source (.expr callee) := h.child ht (.callee callee lists span)
      exact upheld_enter (h.site ht) ⟨hcallee, h.arguments ht⟩ hpending hm
  | scope source program =>
    have hresult : X source (.expr program.result) := h.child ht (.result program)
    refine upheld_enter (h.site ht) ⟨h.site ht, ?_, h.definitions ht, hresult⟩ hpending hm
    exact List.forall_mem_singleton.2 Frame.holds_nil
  | call site callee args =>
    obtain ⟨hsite, hcallee, hargs⟩ := ht
    by_cases hf : ∃ f, callee = .function f
    · obtain ⟨f, rfl⟩ := hf
      rw [start]
      split
      · refine upheld_enter hsite ⟨hsite, ?_, h.body hcallee⟩ hpending hm
        exact List.forall_mem_cons.2 ⟨Function.holds_locals hcallee hargs, h.kept hcallee⟩
      · exact ⟨(hsite.of_blames (site.blames_arity _ _)).aimed, hpending, hm⟩
    · have hplain : ∀ f, callee ≠ .function f := fun f hc => hf ⟨f, hc⟩
      rw [start_call_of_plain pending m site args hplain]
      exact upheld_after (h.aims_call_of_plan hsite hplain hcallee hargs) hpending hm
  | chain source callee lists =>
    obtain ⟨hcallee, hlists⟩ := ht
    exact ⟨hcallee, List.forall_mem_cons.2 ⟨⟨h.start hcallee, hlists⟩, hpending⟩, hm⟩
  | lists source callee span lists =>
    obtain ⟨hcallee, hspan, hlists⟩ := ht
    rcases lists with - | ⟨list, more⟩
    · exact ⟨hcallee, hpending, hm⟩
    · exact ⟨⟨hcallee, hspan, hlists, List.forall_mem_nil _, (List.forall_mem_cons.1 hlists).1⟩,
        hpending, hm⟩
  | arguments source callee span list args todo more =>
    obtain ⟨hcallee, hspan, hlists, hargs, htodo⟩ := ht
    obtain ⟨hlist, hmore⟩ := List.forall_mem_cons.1 hlists
    rcases todo with - | ⟨x, todo⟩
    · exact ⟨⟨h.site_of_list hspan hlist, hcallee, hargs⟩,
        List.forall_mem_cons.2 ⟨⟨hspan, hmore⟩, hpending⟩, hm⟩
    · obtain ⟨hx, htodo⟩ := List.forall_mem_cons.1 htodo
      exact ⟨hx, List.forall_mem_cons.2 ⟨⟨hcallee, hspan, hlists, hargs, htodo⟩, hpending⟩, hm⟩
  | definitions source ds result =>
    obtain ⟨hds, hresult⟩ := ht
    rcases ds with - | ⟨first, ds⟩
    · exact ⟨hresult, hpending, hm⟩
    · have hfirst := (List.forall_mem_cons.1 hds).1
      exact ⟨hfirst.body, List.forall_mem_cons.2 ⟨⟨hds, hresult⟩, hpending⟩, hm⟩
  | inside site frame frames body =>
    obtain ⟨hsite, hframes, hbody⟩ := ht
    have hcheck := aims_checkpoint hsite
      { m with environment := m.environment.push (frame :: frames) } (hm.push hframes)
    have hpending' : ∀ p ∈ Pending.frames (frames.length + 1) :: pending, p.Upheld P V X :=
      List.forall_mem_cons.2 ⟨trivial, hpending⟩
    rw [start]
    rcases e : checkpoint site { m with environment := m.environment.push (frame :: frames) } with
      ⟨u, m'⟩ | ⟨s, m'⟩
    · exact ⟨hbody, hpending', ((ends_of_ok e).1 hcheck).1⟩
    · obtain ⟨hm', hs⟩ := (ends_of_error e).1 hcheck
      exact ⟨hs, hpending', hm'⟩

theorem upheld_resume (h : Upkeep P V X) {p : Pending} (hp : p.Upheld P V X)
    {r : Except Stop (Value Code)} (hr : Fits V (Stop.Aimed P) r)
    (hpending : ∀ p ∈ pending, p.Upheld P V X) (hm : m.environment.Holds V) :
    (resume pending m p r).Upheld P V X := by
  cases p with
  | level => exact ⟨hr, hpending, hm⟩
  | frames count =>
    rcases r with (f | c) | v
    · exact upheld_after (aims_remove hr) hpending hm
    · exact ⟨hr, hpending, hm⟩
    · exact upheld_after (aims_remove hr) hpending hm
  | lists source span lists =>
    rcases r with s | v
    · exact ⟨hr, hpending, hm⟩
    · exact ⟨⟨hr, hp.1, hp.2⟩, hpending, hm⟩
  | argument source callee span list args todo more =>
    rcases r with s | v
    · exact ⟨hr, hpending, hm⟩
    · obtain ⟨hcallee, hspan, hlists, hargs, htodo⟩ := hp
      have hargs' : ∀ w ∈ args ++ [v], V w :=
        List.forall_mem_append.2 ⟨hargs, List.forall_mem_singleton.2 hr⟩
      exact ⟨⟨hcallee, hspan, hlists, hargs', htodo⟩, hpending, hm⟩
  | definition source first ds result =>
    rcases r with s | v
    · exact ⟨hr, hpending, hm⟩
    · obtain ⟨hds, hresult⟩ := hp
      obtain ⟨hfirst, hds⟩ := List.forall_mem_cons.1 hds
      have hsite : Site.Placed P (first.site source) :=
        ⟨hfirst.start, List.forall_mem_singleton.2 hfirst.name⟩
      have hdefine := h.aims_define hsite first.name hr m hm
      rw [resume]
      rcases e : define (first.site source) first.name v m with ⟨u, m'⟩ | ⟨s, m'⟩
      · exact ⟨⟨hds, hresult⟩, hpending, ((ends_of_ok e).1 hdefine).1⟩
      · obtain ⟨hm', hs⟩ := (ends_of_error e).1 hdefine
        exact ⟨hs, hpending, hm'⟩

/-- **A step leads from what is good to what is good.** -/
theorem upheld_of_step (h : Upkeep P V X) {c c' : Moment ε} (hstep : Step c c')
    (hc : c.Upheld P V X) : c'.Upheld P V X := by
  obtain ⟨t | r, pending, m⟩ := c
  · obtain rfl : start pending m t = c' := Option.some.inj hstep
    exact upheld_start h hc.focus hc.pending hc.environment
  · rcases pending with - | ⟨p, pending⟩
    · cases hstep
    · obtain rfl : resume pending m p r = c' := Option.some.inj hstep
      obtain ⟨hp, hpending⟩ := List.forall_mem_cons.1 hc.pending
      exact upheld_resume h hp hc.focus hpending hc.environment

theorem upheld_of_steps (h : Upkeep P V X) {c c' : Moment ε} (hsteps : Steps c c')
    (hc : c.Upheld P V X) : c'.Upheld P V X := by
  induction hsteps with
  | refl => exact hc
  | tail _ hstep ih => exact upheld_of_step h hstep ih

end Moment

end DrawLang
