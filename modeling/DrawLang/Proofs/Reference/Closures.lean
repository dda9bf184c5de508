/-
DrawLang/Proofs/Reference/Closures.lean

What the free names of a function mean.  A function literal keeps all that is
bound where it is evaluated; a definition may give the function a name of its
own, and leaves what it keeps alone.  In a call a name that is no parameter
means the function itself, if it is its own name, and else what was kept for it,
wherever the call stands.

Only a name that nothing was kept for is left to the caller: the frames that a
function keeps are put on top of those of the caller, not in their place.  So a
later definition can give such a name a meaning
(`closures_see_later_definitions`), and the comparison with the lexical
reference semantics is made as long as that does not stop at an unbound name.

Main statement: `closures_keep_their_meaning`.
-/
import Mathlib
import DrawLang.Proofs.Reference.Simulation

namespace DrawLang

open DrawLang.Action Machine

variable {ε α α' : Type} {s : Scoping}

/-! ### Runs and calls beside the reference semantics -/

theorem follows_refl (o : Option (Value Code)) : Follows s o o := by
  rcases o with - | v
  · exact fun _ => rfl
  · exact ⟨v, rfl, matches_refl v⟩

/-- A program comes to the same on a machine and in the reference semantics. -/
theorem agree_run (s : Scoping) (m : Machine Code ε) (program : Scope) (source : Text) :
    Agree (Akin (Environment.At m.environment) 0) s.Excuses
      (fun v v' n n' => Matches s v v' ∧ Akin (Environment.At m.environment) 0 n n')
      (Reference.run s program source m) (Machine.run program source m) := by
  refine (follows_evaluator s (levelLimit - m.level)).scope source program (fun name => ?_) m m
    ⟨rfl, rfl, rfl⟩
  rw [Environment.find?_eq_flatten]
  exact follows_refl _

/-- Calls of matching values come to the same on a machine and in the reference
semantics; with lexical scoping on any machine, whatever is bound there. -/
theorem agree_apply (s : Scoping) {m m' : Machine Code ε} (hlevel : m'.level = m.level)
    (hcancelled : m'.cancelled = m.cancelled) (hcreated : m'.created = m.created)
    (henv : s = .dynamic → m'.environment = m.environment) {callee callee' : Value Code}
    {args args' : List (Value Code)} (hcallee : Matches s callee callee')
    (hargs : List.Forall₂ (Matches s) args args') :
    Agree (Akin (Environment.At m'.environment) 0) s.Excuses
      (fun v v' n n' => Matches s v v' ∧ Akin (Environment.At m'.environment) 0 n n')
      (Reference.apply s callee args m) (Machine.apply callee' args' m') := by
  have hsite : s = .dynamic → ∀ name,
      Follows s (Frame.find? m.environment.frames.flatten name) (m'.environment.find? name) := by
    intro hs name
    rw [henv hs, Environment.find?_eq_flatten]
    exact follows_refl _
  have hcall := (follows_evaluator s (levelLimit - m.level)).call
    (.plain callee.display ⟨0, callee.display.bytes⟩) callee callee' args args' hsite hcallee hargs
    m m' ⟨rfl, hcancelled, hcreated⟩
  show Agree _ _ _ _ (m'.evaluator.call (.plain callee'.display ⟨0, callee'.display.bytes⟩) callee'
    args' m')
  rw [Machine.evaluator, hlevel, ← s.likeness.display_eq hcallee]
  exact hcall

/-- The outcome is no stop at a name that means nothing. -/
def NamesResolve (r : Except Stop α) : Prop := ∀ stop, r = .error stop → ¬ stop.Unbound

/-- Runs that agree come to outcomes that tally, unless the first one is excused. -/
theorem tally_of_agree {F : Machine Code ε → Machine Code ε → Prop} {V : α → α' → Prop}
    {Q : Machine Code ε → Machine Code ε → Prop} {X : Stop → Prop} {a : Action Code ε α}
    {a' : Action Code ε α'} {m m' : Machine Code ε}
    (h : Agree F X (fun v v' n n' => V v v' ∧ Q n n') (a m) (a' m'))
    (hX : ∀ stop, a.outcome m = .error stop → ¬ X stop) :
    Tally V (a.outcome m) (a'.outcome m') := by
  rw [outcome] at hX
  rw [outcome, outcome]
  generalize a m = r, a' m' = r' at h hX ⊢
  cases h with
  | ok h => exact .ok h.1
  | fault h => exact .error _
  | crash c => exact .error _
  | excused h => exact absurd h (hX _ rfl)

/-! ### The name of a function -/

/-- With lexical scoping it does not matter how a function is called that does
not mention its name. -/
theorem matches_rename {f : Function Code} {own own' : Text} (hname : f.name = some own)
    (hown : ¬ f.Open own) (hown' : ¬ f.Open own') :
    Matches .lexical (.function f) (.function { f with name := some own' }) := by
  refine matches_function_iff.2 ⟨rfl, rfl, rfl, rfl, hname ▸ rfl, fun x hx => ?_, fun x _ => ?_⟩
  · have hopen : f.Open x := hx
    have hne : own ≠ x := fun h => hown (h ▸ hopen)
    have hne' : own' ≠ x := fun h => hown' (h ▸ hopen)
    rw [hname, Option.some.injEq, Option.some.injEq]
    exact iff_of_false hne' hne
  · exact follows_refl _

/-! ### Closures -/

/-- **What a function keeps does not change.**  A literal keeps the meanings of
all names where it is evaluated, and in every later call they are what its free
names mean; only its own name means the function itself.  As long as the lexical
reference semantics meets no unbound name, programs and calls therefore come to
what they come to there, whatever is bound where the function is called, and
under whatever name that it does not mention the function is kept. -/
theorem closures_keep_their_meaning :
    (∀ (m : Machine Code ε) params body text, ∃ f m',
      close params body text m = .ok (.function f) m' ∧ f.params = params ∧ f.body = body ∧
        f.name = none ∧ ∀ x, f.kept.find? x = m.environment.find? x) ∧
    (∀ name v (m : Machine Code ε), ∃ w m', named name v m = .ok w m' ∧
      m'.environment = m.environment ∧ (w = v ∨ ∃ f stamp, v = .function f ∧
        f.name = none ∧ w = .function { f with stamp, name := some name })) ∧
    (∀ (f : Function Code) args (site : Environment (Value Code)) x, x ∉ f.params →
      (f.name = some x →
        (site.push (f.locals args :: f.closure)).find? x = some (.function f)) ∧
      (f.name ≠ some x → ∀ v, f.kept.find? x = some v →
        (site.push (f.locals args :: f.closure)).find? x = some v)) ∧
    (∀ (m : Machine Code ε) program source,
      NamesResolve ((Reference.run .lexical program source).outcome m) →
        Tally (Matches .lexical) ((Reference.run .lexical program source).outcome m)
          ((Machine.run program source).outcome m)) ∧
    (∀ (m m' : Machine Code ε) callee args, m'.level = m.level → m'.cancelled = m.cancelled →
      m'.created = m.created → NamesResolve ((Reference.apply .lexical callee args).outcome m) →
        Tally (Matches .lexical) ((Reference.apply .lexical callee args).outcome m)
          ((Machine.apply callee args).outcome m')) ∧
    (∀ (m m' : Machine Code ε) (f : Function Code) own own' args, f.name = some own →
      ¬ f.Open own → ¬ f.Open own' → m'.level = m.level → m'.cancelled = m.cancelled →
        m'.created = m.created →
          NamesResolve ((Reference.apply .lexical (.function f) args).outcome m) →
            Tally (Matches .lexical) ((Reference.apply .lexical (.function f) args).outcome m)
              ((Machine.apply (.function { f with name := some own' }) args).outcome m')) := by
  refine ⟨close_keeps, named_keeps, Function.find?_call, ?_, ?_, ?_⟩
  · intro m program source h
    exact tally_of_agree (agree_run .lexical m program source) h
  · intro m m' callee args hlevel hcancelled hcreated h
    have hagree := agree_apply .lexical hlevel hcancelled hcreated nofun (matches_refl callee)
      (forall₂_matches_refl args)
    exact tally_of_agree hagree h
  · intro m m' f own own' args hname hown hown' hlevel hcancelled hcreated h
    have hagree := agree_apply .lexical hlevel hcancelled hcreated nofun
      (matches_rename hname hown hown') (forall₂_matches_refl args)
    exact tally_of_agree hagree h

/-- A function with the body `y` and no parameters, made where `y` was bound to a text. -/
def keeper : Function Code where
  stamp := 0
  name := some "g".toList
  params := []
  closure := [[("y".toList, .string "kept".toList)]]
  body := ⟨.atom (.name "y".toList) ⟨6, 7⟩, "() -> y".toList⟩
  text := "() -> y".toList

/-- A machine on which `y` is bound to another text. -/
def crowded : Machine Code Unit :=
  ⟨⟨[], [("y".toList, .string "other".toList)]⟩, 0, false, 0, ()⟩

theorem open_keeper {x : Text} (h : keeper.Open x) : x = "y".toList := by
  rcases h.2 with ⟨⟩
  rfl

/-- The function comes to the text it kept, on an empty machine and where the
name is bound to another text, under its name and under another one. -/
theorem closures_keep_their_meaning_keeper :
    (crowded.environment.push (keeper.locals [] :: keeper.closure)).find? "y".toList
      = some (.string "kept".toList) ∧
    Tally (Matches .lexical) (.ok (.string "kept".toList))
      ((Machine.apply (.function keeper) []).outcome crowded) ∧
    Tally (Matches .lexical) (.ok (.string "kept".toList))
      ((Machine.apply (.function { keeper with name := some "h".toList }) []).outcome crowded) ∧
    Tally (Matches .lexical) (.ok (.string "other".toList))
      ((Machine.run ⟨[], .atom (.name "y".toList) ⟨0, 1⟩, ⟨0, 1⟩⟩ "y".toList).outcome crowded) := by
  obtain ⟨-, -, hfind, hrun, happly, hrename⟩ := @closures_keep_their_meaning Unit
  have hkept : (Reference.apply .lexical (.function keeper) []).outcome (Machine.initial ())
      = .ok (.string "kept".toList) := by cbv
  have hother : (Reference.run .lexical ⟨[], .atom (.name "y".toList) ⟨0, 1⟩, ⟨0, 1⟩⟩
      "y".toList).outcome crowded = .ok (.string "other".toList) := by cbv
  refine ⟨?_, ?_, ?_, ?_⟩
  · exact (hfind keeper [] crowded.environment "y".toList List.not_mem_nil).2 (by decide) _ rfl
  · rw [← hkept]
    refine happly (.initial ()) crowded _ [] rfl rfl rfl ?_
    intro stop h
    rw [hkept] at h
    cases h
  · rw [← hkept]
    refine hrename (.initial ()) crowded keeper "g".toList "h".toList [] rfl
      (fun h => absurd (open_keeper h) (by decide)) (fun h => absurd (open_keeper h) (by decide))
      rfl rfl rfl ?_
    intro stop h
    rw [hkept] at h
    cases h
  · rw [← hother]
    refine hrun crowded _ _ ?_
    intro stop h
    rw [hother] at h
    cases h

/-! ### What is left to the caller, and the own name -/

/-- A function that mentions `y`, which is defined behind it, and a call of it. -/
def lateProgram : Scope :=
  ⟨[⟨"f".toList, ⟨4, 5⟩,
      ⟨[], .function [] (.atom (.name "y".toList) ⟨9, 10⟩) ⟨6, 10⟩, ⟨6, 10⟩⟩, ⟨0, 10⟩⟩,
    ⟨"y".toList, ⟨15, 16⟩, ⟨[], .atom (.string "late".toList) ⟨17, 23⟩, ⟨17, 23⟩⟩, ⟨11, 23⟩⟩],
   .calls (.atom (.name "f".toList) ⟨24, 25⟩) [⟨[], ⟨25, 27⟩⟩] ⟨24, 27⟩, ⟨0, 27⟩⟩

/-- The text of `lateProgram`. -/
def lateSource : Text := "def f () y\ndef y \"late\"\nf()".toList

/-- A function that is made where `y` is bound to a built-in, and is then defined as `y`. -/
def renamedProgram : Scope :=
  ⟨[⟨"make".toList, ⟨4, 8⟩,
      ⟨[], .function [⟨"y".toList, ⟨10, 11⟩⟩]
        (.function []
          (.calls (.atom (.name "y".toList) ⟨16, 17⟩)
            [⟨[.atom (.string "x".toList) ⟨18, 21⟩], ⟨17, 22⟩⟩] ⟨16, 22⟩)
          ⟨13, 22⟩) ⟨9, 22⟩, ⟨9, 22⟩⟩, ⟨0, 22⟩⟩,
    ⟨"y".toList, ⟨27, 28⟩,
      ⟨[], .calls (.atom (.name "make".toList) ⟨29, 33⟩)
        [⟨[.atom (.builtin .concat) ⟨34, 40⟩], ⟨33, 41⟩⟩] ⟨29, 41⟩, ⟨29, 41⟩⟩, ⟨23, 41⟩⟩],
   .calls (.atom (.name "y".toList) ⟨42, 43⟩) [⟨[], ⟨43, 45⟩⟩] ⟨42, 45⟩, ⟨0, 45⟩⟩

/-- The text of `renamedProgram`. -/
def renamedSource : Text :=
  "def make (y) () y(\"x\")\ndef y make(concat)\ny()".toList

/-- A name that was not bound where a function was made can be given a meaning
by a later definition, where the lexical reference semantics stops at it; and a
function that is defined by a name it mentions calls itself by it, with the wrong
number of arguments here, and not what was bound where it was made. -/
theorem closures_see_later_definitions :
    (Machine.run lateProgram lateSource).outcome (Machine.initial ())
      = .ok (.string "late".toList) ∧
    (Reference.run .lexical lateProgram lateSource).outcome (Machine.initial ())
      = .error (.fault ⟨.boundName, "y".toList, 1, 10⟩) ∧
    (Machine.run renamedProgram renamedSource).outcome (Machine.initial ())
      = .error (.fault ⟨.arguments "0".toList, "1".toList, 1, 17⟩) := by
  refine ⟨?_, ?_, ?_⟩ <;> cbv

end DrawLang
