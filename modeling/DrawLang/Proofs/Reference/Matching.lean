/-
DrawLang/Proofs/Reference/Matching.lean

When a value of the machine matches one of the reference semantics.  The machine
keeps frames in its functions, all those around the literal and those of the
callers as well; the reference semantics keeps bindings.  Two functions match if
they are the same code and the names that matter mean matching values in what
they keep.

Which names matter depends on the scoping (`Scoping.Needs`).  With lexical
scoping it is those that are free in the literal, and then the machine may find
a meaning for more of them than the reference semantics; with dynamic scoping it
is all names, and they mean something on both sides or on none.

Main statements: matching is a likeness (`Scoping.likeness`), it is reflexive
(`matches_refl`), and where functions match, the names in their bodies follow
those in a call of the other (`follows_bindings`).
-/
import DrawLang.Proofs.Reference.Basic
import DrawLang.Proofs.Value.Likeness

namespace DrawLang

/-- The names whose meaning matters where some are free. -/
def Scoping.Needs (s : Scoping) (free : Text → Prop) (name : Text) : Prop :=
  match s with
  | lexical => free name
  | dynamic => True

theorem Scoping.Needs.mono {s : Scoping} {free free' : Text → Prop} {name : Text}
    (h : s.Needs free name) (hfree : free name → free' name) : s.Needs free' name := by
  rcases s with - | -
  · exact hfree h
  · exact trivial

/-- A value of the machine matches one of the reference semantics.  For a
function, `meaning` tells what the machine finds for the names that matter. -/
inductive Matches (s : Scoping) : Value Code → Value Code → Prop
  | number (n : Number) : Matches s (.number n) (.number n)
  | string (t : Text) : Matches s (.string t) (.string t)
  | color (c : Color) : Matches s (.color c) (.color c)
  | sequence {vs vs' : List (Value Code)} (h : List.Forall₂ (Matches s) vs vs') :
    Matches s (.sequence vs) (.sequence vs')
  | vector (v : Vector) : Matches s (.vector v) (.vector v)
  | shape (sh : Shape) : Matches s (.shape sh) (.shape sh)
  | function {f f' : Function Code} (meaning : Text → Value Code)
    (stamp : f'.stamp = f.stamp) (params : f'.params = f.params) (body : f'.body = f.body)
    (text : f'.text = f.text) (named : f'.name.isSome = f.name.isSome)
    (own : ∀ x, s.Needs f.Open x → (f'.name = some x ↔ f.name = some x))
    (found : ∀ x v, s.Needs f.Open x → f.kept.find? x = some v →
      f'.kept.find? x = some (meaning x))
    (like : ∀ x v, s.Needs f.Open x → f.kept.find? x = some v → Matches s v (meaning x))
    (lost : ∀ x, s = .dynamic → f.kept.find? x = none → f'.kept.find? x = none) :
    Matches s (.function f) (.function f')
  | builtin (b : Builtin) : Matches s (.builtin b) (.builtin b)

variable {s : Scoping}

/-! ### What names mean on both sides -/

/-- What a name means on the machine follows what it means in the reference semantics. -/
def Follows (s : Scoping) : Option (Value Code) → Option (Value Code) → Prop
  | some v, o' => ∃ v', o' = some v' ∧ Matches s v v'
  | none, o' => s = .dynamic → o' = none

theorem follows_or {o o' p p' : Option (Value Code)} (ho : Option.Rel (Matches s) o o')
    (hp : Follows s p p') : Follows s (o.or p) (o'.or p') := by
  cases ho with
  | some h => exact ⟨_, rfl, h⟩
  | none => exact hp

/-- What is found at last does not matter with lexical scoping. -/
theorem follows_or_around {o o' : Option (Value Code)} {site : Bindings} {p' : Option (Value Code)}
    {name : Text} (ho : Follows s o o')
    (hp : s = .dynamic → Follows s (site.find? name) p') :
    Follows s (o.or ((s.around site).find? name)) (o'.or p') := by
  rcases o with - | v
  · rcases s with - | -
    · exact fun h => nomatch h
    · rw [ho rfl]
      exact hp rfl
  · obtain ⟨v', rfl, hv⟩ := ho
    exact ⟨v', rfl, hv⟩

/-! ### Functions that match -/

/-- The same code, where the names that matter mean matching values. -/
structure Function.Matches (s : Scoping) (f f' : Function Code) : Prop where
  stamp : f'.stamp = f.stamp
  params : f'.params = f.params
  body : f'.body = f.body
  text : f'.text = f.text
  named : f'.name.isSome = f.name.isSome
  own : ∀ x, s.Needs f.Open x → (f'.name = some x ↔ f.name = some x)
  kept : ∀ x, s.Needs f.Open x → Follows s (f.kept.find? x) (f'.kept.find? x)

theorem matches_function_iff {f f' : Function Code} :
    Matches s (.function f) (.function f') ↔ Function.Matches s f f' := by
  constructor
  · rintro (- | - | - | - | - | - | ⟨meaning, stamp, params, body, text, named, own, found, like,
      lost⟩)
    refine ⟨stamp, params, body, text, named, own, fun x hx => ?_⟩
    rcases e : f.kept.find? x with - | v
    · exact fun hs => lost x hs e
    · exact ⟨meaning x, found x v hx e, like x v hx e⟩
  · intro h
    refine .function (fun x => (f'.kept.find? x).getD (.function f')) h.stamp h.params h.body h.text
      h.named h.own ?_ ?_ ?_
    · intro x v hx e
      obtain ⟨v', e', hv⟩ := e ▸ h.kept x hx
      rw [e', Option.getD_some]
    · intro x v hx e
      obtain ⟨v', e', hv⟩ := e ▸ h.kept x hx
      rw [e', Option.getD_some]
      exact hv
    · rintro x rfl e
      exact (e ▸ h.kept x trivial : Follows _ none _) rfl

/-- Matching compares values by their parts. -/
def Scoping.likeness (s : Scoping) : Likeness Code Code where
  value := DrawLang.Matches s
  function := Function.Matches s
  value_iff v v' := by
    constructor
    · intro h
      have hall := h
      cases h with
      | function => exact .function (matches_function_iff.1 hall)
      | sequence h => exact .sequence h
      | number | string | color | vector | shape | builtin => constructor
    · intro h
      cases h with
      | function h => exact matches_function_iff.2 h
      | sequence h => exact .sequence h
      | number | string | color | vector | shape | builtin => constructor
  text_eq _ _ h := h.text.symm

/-! ### Every value matches itself -/

mutual

/-- A value matches itself. -/
theorem matches_refl : (v : Value Code) → Matches s v v
  | .number n => .number n
  | .string t => .string t
  | .color c => .color c
  | .sequence vs => .sequence (forall₂_matches_refl vs)
  | .vector v => .vector v
  | .shape sh => .shape sh
  | .function ⟨stamp, name, params, closure, body, text⟩ => by
    have hclosure := matches_refl_of_frames closure
    refine matches_function_iff.2 ⟨rfl, rfl, rfl, rfl, rfl, fun _ _ => Iff.rfl, fun x _ => ?_⟩
    rw [Function.kept]
    rcases e : Frame.find? closure.flatten x with - | v
    · exact fun _ => rfl
    -- what is found stands in one of the frames that are kept
    · obtain ⟨entry, hentry, rfl⟩ := Option.map_eq_some_iff.1 e
      exact ⟨_, rfl, hclosure _ (List.mem_of_find?_eq_some hentry)⟩
  | .builtin b => .builtin b

theorem forall₂_matches_refl : (vs : List (Value Code)) → List.Forall₂ (Matches s) vs vs
  | [] => .nil
  | v :: vs => .cons (matches_refl v) (forall₂_matches_refl vs)

theorem matches_refl_of_frames : (fs : List (List (Text × Value Code))) →
    ∀ entry ∈ fs.flatten, Matches s entry.2 entry.2
  | [], _, h => nomatch h
  | f :: fs, entry, h => by
    rcases List.mem_append.1 (List.flatten_cons ▸ h) with h | h
    · exact matches_refl_of_bindings f entry h
    · exact matches_refl_of_frames fs entry h

theorem matches_refl_of_bindings : (f : List (Text × Value Code)) →
    ∀ entry ∈ f, Matches s entry.2 entry.2
  | [], _, h => nomatch h
  | (name, v) :: f, entry, h => by
    rcases List.mem_cons.1 h with rfl | h
    · exact matches_refl v
    · exact matches_refl_of_bindings f entry h

end

/-! ### The body of a call -/

variable {f f' : Function Code} {args args' : List (Value Code)}

/-- **The names in the body of a call follow the reference semantics.** -/
theorem follows_bindings (hf : Function.Matches s f f')
    (hargs : List.Forall₂ (Matches s) args args') (haccepts : f.arity.accepts args.length)
    {site : Bindings} {e : Environment (Value Code)}
    (hsite : s = .dynamic → ∀ x, Follows s (site.find? x) (e.find? x)) {x : Text}
    (hx : s.Needs f.body.expr.Free x) :
    Follows s ((f.bindings s site args).find? x)
      ((e.push (f'.locals args' :: f'.closure)).find? x) := by
  rw [Environment.find?_push, Function.bindings, List.append_assoc, Frame.find?_append,
    Frame.find?_append, List.flatten_cons, Frame.find?_append, Option.or_assoc,
    Function.locals_eq, Function.locals_eq, hf.params]
  -- what is kept is asked only for names that neither the call nor the function binds
  refine Frame.find?_insertAll_zip (P := fun o o' => Follows s (o.or _) (o'.or _))
    (fun v v' hv => ⟨v', rfl, hv⟩) hargs ((f.accepts_iff _).1 haccepts) _ _ ?_
  by_cases hparam : x ∈ f.params
  · exact .inl hparam
  · have hopen : s.Needs f.Open x := hx.mono fun hfree => ⟨hparam, hfree⟩
    refine .inr (follows_or ?_ (follows_or_around (hf.kept x hopen) (hsite · x)))
    rw [Function.find?_own, Function.find?_own, if_congr (hf.own x hopen) rfl rfl]
    split
    · exact .some (matches_function_iff.2 hf)
    · exact .none

end DrawLang
