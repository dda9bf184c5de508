/-
DrawLang/Proofs/Action/Agreement.lean

Two runs side by side.  `Agree` compares how they end: with results in a
relation, with the same fault, or with the same crash; the first run may also
end with a stop that excuses the second one from anything.  Chained actions
agree part by part (`agree_bind`).

Machines are compared by `Akin`: their environments are in a relation of their
own, the same request is pending, and the second machine has made a fixed number
of functions more than the first one.  Most actions preserve such a relation
whatever it says of environments, and `Mirrors` says that two actions do; the
rules below take both apart at once.

Main statement: calls that settle plans which tally mirror each other
(`mirrors_settle`).
-/
import Mathlib.Data.Option.Defs
import DrawLang.Proofs.Action.Brackets
import DrawLang.Proofs.Invocation.Plan

namespace DrawLang

variable {β ε α α' γ γ' δ δ' : Type}

/-! ### Computations that tally -/

/-- Both computations yield results in relation, or both stop in the same way. -/
inductive Tally (Q : α → α' → Prop) : Except Stop α → Except Stop α' → Prop
  | ok {a : α} {a' : α'} (h : Q a a') : Tally Q (.ok a) (.ok a')
  | error (s : Stop) : Tally Q (.error s) (.error s)

theorem tally_of_eq {x x' : Except Stop α} (h : x = x') : Tally (· = ·) x x' := by
  subst h
  rcases x with s | a
  · exact .error s
  · exact .ok rfl

theorem tally_bind {P : α → α' → Prop} {Q : γ → γ' → Prop} {x : Except Stop α}
    {x' : Except Stop α'} {f : α → Except Stop γ} {f' : α' → Except Stop γ'} (hx : Tally P x x')
    (hf : ∀ a a', P a a' → Tally Q (f a) (f' a')) : Tally Q (x >>= f) (x' >>= f') := by
  cases hx with
  | ok h => exact hf _ _ h
  | error s => exact .error s

theorem tally_bind_eq {Q : γ → γ' → Prop} {x x' : Except Stop α} {f : α → Except Stop γ}
    {f' : α → Except Stop γ'} (hx : x = x') (hf : ∀ a, Tally Q (f a) (f' a)) :
    Tally Q (x >>= f) (x' >>= f') :=
  tally_bind (tally_of_eq hx) fun a _ h => h ▸ hf a

/-- The plans stop alike, or come to as many items and to results that tally. -/
abbrev TallyPlans (V : α → α' → Prop) :
    Except Stop (Nat × Except Stop α) → Except Stop (Nat × Except Stop α') → Prop :=
  Tally fun p p' => p.1 = p'.1 ∧ Tally V p.2 p'.2

namespace Action

/-! ### Runs that agree -/

/-- How two runs end side by side: `Q` compares results with the machines behind
them, `F` the machines behind a fault, and `X` tells which stops of the first
run are excuses. -/
inductive Agree (F : Machine β ε → Machine β ε → Prop) (X : Stop → Prop)
    (Q : α → α' → Machine β ε → Machine β ε → Prop) :
    EStateM.Result Stop (Machine β ε) α → EStateM.Result Stop (Machine β ε) α' → Prop
  | ok {v : α} {v' : α'} {m m' : Machine β ε} (h : Q v v' m m') : Agree F X Q (.ok v m) (.ok v' m')
  | fault {f : Fault} {m m' : Machine β ε} (h : F m m') :
    Agree F X Q (.error (.fault f) m) (.error (.fault f) m')
  | crash (c : Crash) (m m' : Machine β ε) :
    Agree F X Q (.error (.crash c) m) (.error (.crash c) m')
  | excused {s : Stop} {m : Machine β ε} {r : EStateM.Result Stop (Machine β ε) α'} (h : X s) :
    Agree F X Q (.error s m) r

/-- No stop is an excuse. -/
abbrev noExcuse : Stop → Prop := fun _ => False

variable {F F' : Machine β ε → Machine β ε → Prop} {X : Stop → Prop}

theorem agree_error {Q : α → α' → Machine β ε → Machine β ε → Prop} {m m' : Machine β ε} (s : Stop)
    (h : F m m') : Agree F X Q (.error s m) (.error s m') := by
  rcases s with f | c
  · exact .fault h
  · exact .crash c m m'

theorem Agree.mono {Q Q' : α → α' → Machine β ε → Machine β ε → Prop}
    {r : EStateM.Result Stop (Machine β ε) α} {r' : EStateM.Result Stop (Machine β ε) α'}
    (h : Agree F X Q r r') (hF : ∀ m m', F m m' → F' m m')
    (hQ : ∀ v v' m m', Q v v' m m' → Q' v v' m m') : Agree F' X Q' r r' := by
  cases h with
  | ok h => exact .ok (hQ _ _ _ _ h)
  | fault h => exact .fault (hF _ _ h)
  | crash c m m' => exact .crash c m m'
  | excused h => exact .excused h

theorem Agree.mono_fault {Q : α → α' → Machine β ε → Machine β ε → Prop}
    {r : EStateM.Result Stop (Machine β ε) α} {r' : EStateM.Result Stop (Machine β ε) α'}
    (h : Agree F X Q r r') (hF : ∀ m m', F m m' → F' m m') : Agree F' X Q r r' :=
  h.mono hF fun _ _ _ _ hq => hq

theorem agree_bind {P : α → α' → Machine β ε → Machine β ε → Prop}
    {Q : γ → γ' → Machine β ε → Machine β ε → Prop} {a : Action β ε α} {a' : Action β ε α'}
    {f : α → Action β ε γ} {f' : α' → Action β ε γ'} {m m' : Machine β ε}
    (ha : Agree F X P (a m) (a' m'))
    (hf : ∀ v v' n n', P v v' n n' → Agree F X Q (f v n) (f' v' n')) :
    Agree F X Q ((a >>= f) m) ((a' >>= f') m') := by
  rcases e : a m with ⟨v, n⟩ | ⟨s, n⟩ <;> rcases e' : a' m' with ⟨v', n'⟩ | ⟨s', n'⟩ <;>
    rw [e, e'] at ha
  · rw [bind_of_ok e, bind_of_ok e']
    cases ha with
    | ok h => exact hf v v' n n' h
  · cases ha
  -- only an excuse lets the second run go on alone
  · rw [bind_of_error e]
    cases ha with
    | excused h => exact .excused h
  · rw [bind_of_error e, bind_of_error e']
    cases ha with
    | fault h => exact .fault h
    | crash c => exact .crash c n n'
    | excused h => exact .excused h

/-! ### Actions that mirror each other -/

/-- Environments in relation, the same pending request, and `k` more functions
made on the second machine. -/
structure Akin (E : Environment (Value β) → Environment (Value β) → Prop) (k : Nat)
    (m m' : Machine β ε) : Prop where
  environment : E m.environment m'.environment
  cancelled : m'.cancelled = m.cancelled
  created : m'.created = m.created + k

/-- On machines that are akin the two actions agree, and leave machines that are akin. -/
def Mirrors (E : Environment (Value β) → Environment (Value β) → Prop) (k : Nat) (X : Stop → Prop)
    (V : α → α' → Prop) (a : Action β ε α) (a' : Action β ε α') : Prop :=
  ∀ m m', Akin E k m m' → Agree (Akin E k) X (fun v v' n n' => V v v' ∧ Akin E k n n') (a m) (a' m')

variable {E : Environment (Value β) → Environment (Value β) → Prop} {k : Nat} {V : α → α' → Prop}
  {W : γ → γ' → Prop}

theorem mirrors_pure {v : α} {v' : α'} (h : V v v') :
    Mirrors E k X V (pure v : Action β ε α) (pure v') :=
  fun _ _ hm => .ok ⟨h, hm⟩

theorem mirrors_throw (s : Stop) : Mirrors E k X V (throw s : Action β ε α) (throw s) :=
  fun _ _ hm => agree_error s hm

theorem mirrors_bind {a : Action β ε α} {a' : Action β ε α'} {f : α → Action β ε γ}
    {f' : α' → Action β ε γ'} (ha : Mirrors E k X V a a')
    (hf : ∀ v v', V v v' → Mirrors E k X W (f v) (f' v')) :
    Mirrors E k X W (a >>= f) (a' >>= f') :=
  fun m m' hm => agree_bind (ha m m' hm) fun v v' n n' h => hf v v' h.1 n n' h.2

theorem mirrors_check {x : Except Stop α} {x' : Except Stop α'} (h : Tally V x x') :
    Mirrors E k X V (check x : Action β ε α) (check x') := by
  cases h with
  | ok h => exact mirrors_pure h
  | error s => exact mirrors_throw s

theorem mirrors_checkpoint (site : Site) :
    Mirrors E k X (fun _ _ => True) (checkpoint site : Action β ε Unit) (checkpoint site) := by
  intro m m' hm
  rcases hc : m.cancelled with - | -
  · rw [checkpoint_of_calm site hc, checkpoint_of_calm site (hm.cancelled.trans hc)]
    exact .ok ⟨trivial, hm⟩
  · rw [checkpoint_of_cancelled site hc, checkpoint_of_cancelled site (hm.cancelled.trans hc)]
    exact agree_error _ ⟨hm.environment, rfl, hm.created⟩

theorem mirrors_checkpoints (site : Site) (count : Nat) :
    Mirrors E k X (fun _ _ => True) (checkpoints site count : Action β ε Unit)
      (checkpoints site count) := by
  unfold checkpoints
  split
  · exact mirrors_pure trivial
  · exact mirrors_checkpoint site

theorem mirrors_settle (site : Site) {plan : Except Stop (Nat × Except Stop α)}
    {plan' : Except Stop (Nat × Except Stop α')} (h : TallyPlans V plan plan') :
    Mirrors E k X V (settle site plan : Action β ε α) (settle site plan') := by
  refine mirrors_bind (mirrors_check h) ?_
  rintro ⟨count, result⟩ ⟨count', result'⟩ ⟨hcount, hresult⟩
  -- as many items, so the same checkpoints are passed on both sides
  obtain rfl : count = count' := hcount
  exact mirrors_bind (mirrors_checkpoints site count) fun _ _ _ => mirrors_check hresult

theorem mirrors_stamp :
    Mirrors E k X (fun n n' => n' = n + k) (stamp : Action β ε Nat) stamp := by
  intro m m' hm
  refine .ok ⟨hm.created, hm.environment, hm.cancelled, ?_⟩
  show m'.created + 1 = m.created + 1 + k
  rw [hm.created]
  omega

theorem mirrors_descend (site : Site) {D : δ → δ' → Prop} {deeper : Option δ}
    {deeper' : Option δ'} {body : δ → Action β ε α} {body' : δ' → Action β ε α'}
    (hdeeper : Option.Rel D deeper deeper')
    (hbody : ∀ d d', D d d' → Mirrors E k X V (body d) (body' d')) :
    Mirrors E k X V (descend site deeper body) (descend site deeper' body') := by
  intro m m' hm
  cases hdeeper with
  | none => exact agree_error _ hm
  | @some d d' hd =>
    -- being akin has nothing to do with levels
    have hdown := hbody d d' hd { m with level := m.level + 1 } { m' with level := m'.level + 1 }
      ⟨hm.environment, hm.cancelled, hm.created⟩
    unfold descend
    dsimp only
    generalize body d _ = r, body' d' _ = r' at hdown ⊢
    cases hdown with
    | ok h => exact .ok ⟨h.1, h.2.environment, h.2.cancelled, h.2.created⟩
    | fault h => exact .fault ⟨h.environment, h.cancelled, h.created⟩
    | crash c n n' => exact .crash c _ _
    | excused h => exact .excused h

end Action

end DrawLang
