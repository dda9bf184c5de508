/-
DrawLang/Proofs/Action/Meeting.lean

Actions that meet conditions whatever comes of them: started on a machine with
an invariant `I`, such an action leaves one with the same invariant, and comes
to a value with a property `Q` or to a stop with a property `B`.  Unlike what an
action leaves behind (`Leaves`), this is said of crashes as well.

The rules below take an action apart.  Those for the basic actions of a machine
ask of the invariant that it survives what they change.
-/
import DrawLang.Proofs.Invocation.Plan
import DrawLang.Proofs.Action.Brackets

namespace DrawLang.Action

variable {β ε α γ : Type}

/-- A result has one property as a value and another one as a stop. -/
def Fits (Q : α → Prop) (B : Stop → Prop) : Except Stop α → Prop
  | .ok v => Q v
  | .error s => B s

/-- From a machine with `I` the action leads to one with `I`, and to a value with `Q`
or a stop with `B`. -/
def Meets (I : Machine β ε → Prop) (Q : α → Prop) (B : Stop → Prop) (a : Action β ε α) : Prop :=
  ∀ m, I m → a.Ends m fun r m' => I m' ∧ Fits Q B r

variable {I : Machine β ε → Prop} {P Q : α → Prop} {R : γ → Prop} {B B' : Stop → Prop}

theorem Meets.mono {a : Action β ε α} (h : Meets I P B a) (hQ : ∀ v, P v → Q v)
    (hB : ∀ s, B s → B' s) : Meets I Q B' a := by
  refine fun m hm => (h m hm).mono fun r m' hr => ⟨hr.1, ?_⟩
  rcases r with s | v
  · exact hB s hr.2
  · exact hQ v hr.2

theorem meets_pure {v : α} (h : Q v) : Meets I Q B (pure v : Action β ε α) :=
  fun _ hm => ⟨hm, h⟩

theorem meets_throw {s : Stop} (h : B s) : Meets I Q B (throw s : Action β ε α) :=
  fun _ hm => ⟨hm, h⟩

theorem meets_bind {a : Action β ε α} {f : α → Action β ε γ} (ha : Meets I P B a)
    (hf : ∀ v, P v → Meets I R B (f v)) : Meets I R B (a >>= f) := by
  intro m hm
  refine ends_bind.2 ((ha m hm).mono ?_)
  rintro (s | v) m' ⟨hm', h⟩
  · exact ⟨hm', h⟩
  · exact hf v h m' hm'

theorem meets_check {x : Except Stop α} (h : Fits Q B x) :
    Meets I Q B (check x : Action β ε α) := by
  rcases x with s | v
  · exact meets_throw h
  · exact meets_pure h

theorem meets_checkpoint {site : Site} (hI : ∀ m, I m → I { m with cancelled := false })
    (hB : B (site.blame .completion "interruption".toList)) :
    Meets I (fun _ => True) B (checkpoint site : Action β ε Unit) := by
  intro m hm
  rcases hc : m.cancelled with - | -
  · exact (ends_of_ok (checkpoint_of_calm site hc)).2 ⟨hm, trivial⟩
  · exact (ends_of_error (checkpoint_of_cancelled site hc)).2 ⟨hI m hm, hB⟩

/-- Carrying out a plan comes to what the plan comes to, or is stopped at its checkpoints. -/
theorem meets_settle {site : Site} {plan : Except Stop (Nat × Except Stop α)}
    (hI : ∀ m, I m → I { m with cancelled := false })
    (hB : B (site.blame .completion "interruption".toList)) (h : Fits Q B (plan >>= Prod.snd)) :
    Meets I Q B (settle site plan : Action β ε α) := by
  rcases plan with s | ⟨count, result⟩
  · exact meets_throw h
  · have hresult : Meets I Q B (check result : Action β ε α) := meets_check h
    show Meets I Q B (checkpoints site count >>= fun _ => check result)
    unfold checkpoints
    split
    · exact hresult
    · exact meets_bind (meets_checkpoint hI hB) fun _ _ => hresult

/-! ### Frames and names -/

theorem meets_remove {count : Nat}
    (hI : ∀ m e, I m → m.environment.pop? count = some e → I { m with environment := e })
    (hB : ∀ depth, B (.crash (.emptyStack count depth))) :
    Meets I (fun _ => True) B (remove count : Action β ε Unit) := by
  intro m hm
  rcases e : m.environment.pop? count with - | environment
  · exact (ends_of_error (remove_of_no_pop e)).2 ⟨hm, hB _⟩
  · exact (ends_of_ok (remove_of_pop e)).2 ⟨hI m environment hm e, trivial⟩

theorem meets_get : Meets I I B (get : Action β ε (Machine β ε)) := fun _ hm => ⟨hm, hm⟩

theorem meets_stamp (hI : ∀ m, I m → I { m with created := m.created + 1 }) :
    Meets I (fun _ => True) B (stamp : Action β ε Nat) :=
  fun m hm => ⟨hI m hm, trivial⟩

variable {V : Value β → Prop}

theorem meets_known {site : Site} {name : Text}
    (hV : ∀ m v, I m → m.environment.find? name = some v → V v)
    (hB : B (site.blameArgument 0 .boundName name)) :
    Meets I V B (known site name : Action β ε (Value β)) := by
  intro m hm
  rcases e : m.environment.find? name with - | v
  · exact (ends_of_error (known_of_free e)).2 ⟨hm, hB⟩
  · exact (ends_of_ok (known_of_bound e)).2 ⟨hm, hV m v hm e⟩

theorem meets_close {params : List Text} {body : β} {text : Text}
    (hI : ∀ m, I m → I { m with created := m.created + 1 })
    (hV : ∀ m stamp, I m →
      V (.function ⟨stamp, none, params, m.environment.frames, body, text⟩)) :
    Meets I V B (close params body text : Action β ε (Value β)) := by
  refine meets_bind (meets_stamp hI) fun stamp _ => ?_
  exact meets_bind meets_get fun m hm => meets_pure (hV m stamp hm)

theorem meets_named {name : Text} {v : Value β}
    (hI : ∀ m, I m → I { m with created := m.created + 1 }) (hv : V v)
    (hV : ∀ f stamp, v = .function f → V (.function { f with stamp, name := some name })) :
    Meets I V B (named name v : Action β ε (Value β)) := by
  cases v with
  | function f =>
    rcases e : f.name with - | own
    · simp only [named, e]
      exact meets_bind (meets_stamp hI) fun stamp _ => meets_pure (hV f stamp rfl)
    · simp only [named, e]
      exact meets_pure hv
  | number | string | color | sequence | vector | shape | builtin => exact meets_pure hv

theorem meets_define {site : Site} {name : Text} {v : Value β}
    (hI : ∀ m, I m → I { m with created := m.created + 1 })
    (hinsert : ∀ m w, I m → V w → I { m with environment := m.environment.insert name w })
    (hB : B (site.blameArgument 0 .newName name)) (hv : V v)
    (hV : ∀ f stamp, v = .function f → V (.function { f with stamp, name := some name })) :
    Meets I (fun _ => True) B (define site name v : Action β ε Unit) := by
  refine meets_bind meets_get fun m _ => ?_
  split
  · exact meets_throw hB
  · refine meets_bind (meets_named hI hv hV) fun w hw m hm => ?_
    exact ⟨hinsert m w hm hw, trivial⟩

end DrawLang.Action
