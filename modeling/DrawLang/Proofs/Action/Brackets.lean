/-
DrawLang/Proofs/Action/Brackets.lean

What the basic actions of a machine do, as equations: the checkpoint with and
without a pending request, the two actions that put another one in brackets, for
each way in which that one can end, and what looks up and binds names.
-/
import DrawLang.Machine

namespace DrawLang.Action

variable {β ε α γ δ : Type}

/-! ### Chains and checkpoints -/

theorem bind_of_ok {a : Action β ε α} {m m' : Machine β ε} {v : α} (e : a m = .ok v m')
    (f : α → Action β ε γ) : (a >>= f) m = f v m' := by
  rw [show (a >>= f) m = EStateM.bind a f m from rfl, EStateM.bind, e]

theorem bind_of_error {a : Action β ε α} {m m' : Machine β ε} {s : Stop} (e : a m = .error s m')
    (f : α → Action β ε γ) : (a >>= f) m = .error s m' := by
  rw [show (a >>= f) m = EStateM.bind a f m from rfl, EStateM.bind, e]

theorem checkpoint_of_calm (site : Site) {m : Machine β ε} (h : m.cancelled = false) :
    checkpoint site m = .ok () m := by
  simp [checkpoint, h]

theorem checkpoint_of_cancelled (site : Site) {m : Machine β ε} (h : m.cancelled = true) :
    checkpoint site m
      = .error (site.blame .completion "interruption".toList) { m with cancelled := false } := by
  simp only [checkpoint, h, if_true]

/-! ### Levels -/

theorem descend_of_ok {site : Site} {d : δ} {body : δ → Action β ε α} {m m' : Machine β ε} {v : α}
    (e : body d { m with level := m.level + 1 } = .ok v m') :
    descend site (some d) body m = .ok v { m' with level := m'.level - 1 } := by
  simp only [descend, e]

theorem descend_of_error {site : Site} {d : δ} {body : δ → Action β ε α} {m m' : Machine β ε}
    {s : Stop} (e : body d { m with level := m.level + 1 } = .error s m') :
    descend site (some d) body m = .error s { m' with level := m'.level - 1 } := by
  simp only [descend, e]

theorem descend_map {δ' : Type} (site : Site) (g : δ → δ') (deeper : Option δ)
    (body : δ' → Action β ε α) :
    descend site (deeper.map g) body = descend site deeper fun d => body (g d) := by
  rcases deeper with - | d <;> rfl

/-! ### Frames -/

theorem remove_of_pop {count : Nat} {m : Machine β ε} {environment : Environment (Value β)}
    (h : m.environment.pop? count = some environment) :
    remove count m = .ok () { m with environment } := by
  simp only [remove, h]

theorem remove_of_no_pop {count : Nat} {m : Machine β ε} (h : m.environment.pop? count = none) :
    remove count m = .error (.crash (.emptyStack count m.environment.depth)) m := by
  simp only [remove, h]

variable {site : Site} {frames : List (Frame (Value β))} {body : Action β ε α} {m m' : Machine β ε}

theorem inside_of_ok {v : α} (e : (checkpoint site >>= fun _ => body)
    { m with environment := m.environment.push frames } = .ok v m') :
    inside site frames body m = (remove frames.length >>= fun _ => pure v) m' := by
  rw [inside, e]

theorem inside_of_fault {f : Fault} (e : (checkpoint site >>= fun _ => body)
    { m with environment := m.environment.push frames } = .error (.fault f) m') :
    inside site frames body m = (remove frames.length >>= fun _ => throw (.fault f)) m' := by
  rw [inside, e]

theorem inside_of_crash {c : Crash} (e : (checkpoint site >>= fun _ => body)
    { m with environment := m.environment.push frames } = .error (.crash c) m') :
    inside site frames body m = .error (.crash c) m' := by
  rw [inside, e]

/-! ### Names -/

theorem known_of_bound {site : Site} {name : Text} {m : Machine β ε} {v : Value β}
    (h : m.environment.find? name = some v) : known site name m = .ok v m := by
  rw [known, h]

theorem known_of_free {site : Site} {name : Text} {m : Machine β ε}
    (h : m.environment.find? name = none) :
    known site name m = .error (site.blameArgument 0 .boundName name) m := by
  rw [known, h]

/-- A function without a name takes the name and a new stamp; nothing else changes. -/
theorem named_keeps (name : Text) (v : Value β) (m : Machine β ε) :
    ∃ w m', named name v m = .ok w m' ∧ m'.environment = m.environment ∧ (w = v ∨ ∃ f stamp,
      v = .function f ∧ f.name = none ∧ w = .function { f with stamp, name := some name }) := by
  rcases v with - | - | - | - | - | - | f | -
  case function =>
    rcases e : f.name with - | own
    · refine ⟨_, { m with created := m.created + 1 }, ?_, rfl, .inr ⟨f, m.created, rfl, e, rfl⟩⟩
      simp only [named, e]
      rfl
    · refine ⟨_, m, ?_, rfl, .inl rfl⟩
      simp only [named, e]
      rfl
  all_goals exact ⟨_, m, rfl, rfl, .inl rfl⟩

theorem define_of_bound {site : Site} {name : Text} {m : Machine β ε} (v : Value β)
    (h : m.environment.hasLocal name = true) :
    define site name v m = .error (site.blameArgument 0 .newName name) m := by
  show ((if m.environment.hasLocal name then _ else _ : Action β ε Unit) : Action β ε Unit) m = _
  rw [if_pos h]
  rfl

theorem define_of_new {site : Site} {name : Text} {m : Machine β ε} (v : Value β)
    (h : m.environment.hasLocal name = false) :
    define site name v m = (named name v >>= fun w => modify fun m =>
      { m with environment := m.environment.insert name w }) m := by
  show ((if m.environment.hasLocal name then _ else _ : Action β ε Unit) : Action β ε Unit) m = _
  rw [if_neg (Bool.not_eq_true _ ▸ h)]

end DrawLang.Action
