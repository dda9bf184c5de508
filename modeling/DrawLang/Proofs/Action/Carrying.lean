/-
DrawLang/Proofs/Action/Carrying.lean

Actions for which fewer or more levels are left.  No action looks at the level of the
machine: how many levels are left is handed in to `descend`, and where there is none left
there is a stop for that.  So if the second of two actions has at least as many levels left as
the first one, and is otherwise the same, then whatever the first one comes to carries over to
the second one (`CarriesOver`), on a machine of whatever level, unless the first one is cut
short by a stop for too many levels.

The rules below take both actions apart at once.  Only `descend` has to look at the levels
that are left, and nothing catches the stop on its way out.
-/
import DrawLang.Proofs.Action.Heeding

namespace DrawLang

variable {β ε α γ δ δ' : Type}

/-- The machine with another number of active levels. -/
def Machine.atLevel (m : Machine β ε) (level : Nat) : Machine β ε := { m with level }

namespace Action

/-- The same end of a run, with another number of active levels behind it. -/
def atLevel (level : Nat) :
    EStateM.Result Stop (Machine β ε) α → EStateM.Result Stop (Machine β ε) α
  | .ok v m => .ok v (m.atLevel level)
  | .error s m => .error s (m.atLevel level)

/-- The run was cut short: by a fault for too many levels, or by a crash. -/
def Cut : EStateM.Result Stop (Machine β ε) α → Prop
  | .ok _ _ => False
  | .error s _ => s.IsOf [.depth]

/-- Unless the first action is cut short, the second one comes to the same, whatever the level
of the machine. -/
def CarriesOver (a a' : Action β ε α) : Prop :=
  ∀ m level, Cut (a m) ∨ a' (m.atLevel level) = atLevel level (a m)

/-! ### Rules -/

theorem carriesOver_pure (v : α) : CarriesOver (pure v : Action β ε α) (pure v) :=
  fun _ _ => .inr rfl

theorem carriesOver_throw (s : Stop) : CarriesOver (throw s : Action β ε α) (throw s) :=
  fun _ _ => .inr rfl

theorem carriesOver_bind {a a' : Action β ε α} {f f' : α → Action β ε γ} (ha : CarriesOver a a')
    (hf : ∀ v, CarriesOver (f v) (f' v)) : CarriesOver (a >>= f) (a' >>= f') := by
  intro m level
  have hfirst := ha m level
  rcases e : a m with ⟨v, n⟩ | ⟨s, n⟩ <;> rw [e] at hfirst
  · obtain hcut | he := hfirst
    · exact hcut.elim
    · rw [bind_of_ok e, bind_of_ok he]
      exact hf v n level
  -- behind a stop of the first part nothing is done on either side
  · rw [bind_of_error e]
    obtain hcut | he := hfirst
    · exact .inl hcut
    · exact .inr (bind_of_error he _)

theorem carriesOver_check (x : Except Stop α) :
    CarriesOver (check x : Action β ε α) (check x) := by
  rcases x with s | v
  · exact carriesOver_throw s
  · exact carriesOver_pure v

theorem carriesOver_checkpoint (site : Site) :
    CarriesOver (checkpoint site : Action β ε Unit) (checkpoint site) := by
  intro m level
  right
  rcases hc : m.cancelled with - | -
  · have hc' : (m.atLevel level).cancelled = false := hc
    rw [checkpoint_of_calm site hc, checkpoint_of_calm site hc']
    rfl
  · have hc' : (m.atLevel level).cancelled = true := hc
    rw [checkpoint_of_cancelled site hc, checkpoint_of_cancelled site hc']
    rfl

theorem carriesOver_settle (site : Site) (plan : Except Stop (Nat × Except Stop α)) :
    CarriesOver (settle site plan : Action β ε α) (settle site plan) := by
  refine carriesOver_bind (carriesOver_check plan) fun ⟨count, result⟩ => ?_
  refine carriesOver_bind ?_ fun _ => carriesOver_check result
  unfold checkpoints
  split
  · exact carriesOver_pure ()
  · exact carriesOver_checkpoint site

/-! ### Names -/

theorem carriesOver_known (site : Site) (name : Text) :
    CarriesOver (known site name : Action β ε (Value β)) (known site name) := by
  intro m level
  right
  rcases e : m.environment.find? name with - | v
  · have e' : (m.atLevel level).environment.find? name = none := e
    rw [known_of_free e, known_of_free e']
    rfl
  · have e' : (m.atLevel level).environment.find? name = some v := e
    rw [known_of_bound e, known_of_bound e']
    rfl

theorem carriesOver_close (params : List Text) (body : β) (text : Text) :
    CarriesOver (close params body text : Action β ε (Value β)) (close params body text) :=
  fun _ _ => .inr rfl

theorem carriesOver_named (name : Text) (v : Value β) :
    CarriesOver (named name v : Action β ε (Value β)) (named name v) := by
  rcases v with - | - | - | - | - | - | ⟨stamp, own | own, params, closure, body, text⟩ | -
  all_goals exact fun _ _ => .inr rfl

theorem carriesOver_define (site : Site) (name : Text) (v : Value β) :
    CarriesOver (define site name v : Action β ε Unit) (define site name v) := by
  intro m level
  rcases e : m.environment.hasLocal name with - | -
  · have e' : (m.atLevel level).environment.hasLocal name = false := e
    rw [define_of_new v e, define_of_new v e']
    exact carriesOver_bind (carriesOver_named name v) (fun _ _ _ => .inr rfl) m level
  · have e' : (m.atLevel level).environment.hasLocal name = true := e
    rw [define_of_bound v e, define_of_bound v e']
    exact .inr rfl

/-! ### Brackets -/

/-- Where a level is left for the first action, one is left for the second one. -/
theorem carriesOver_descend (site : Site) {deeper : Option δ} {deeper' : Option δ'}
    {body : δ → Action β ε α} {body' : δ' → Action β ε α}
    (h : ∀ d, deeper = some d → ∃ d', deeper' = some d' ∧ CarriesOver (body d) (body' d')) :
    CarriesOver (descend site deeper body) (descend site deeper' body') := by
  intro m level
  rcases deeper with - | d
  · exact .inl (Stop.isOf_at _ _ _ (List.mem_singleton.2 rfl))
  · obtain ⟨d', rfl, hbody⟩ := h d rfl
    have hdeep := hbody { m with level := m.level + 1 } (level + 1)
    rcases e : body d { m with level := m.level + 1 } with ⟨v, n⟩ | ⟨s, n⟩ <;> rw [e] at hdeep
    · obtain hcut | he := hdeep
      · exact hcut.elim
      · have he' : body' d' { m.atLevel level with level := level + 1 }
            = .ok v (n.atLevel (level + 1)) := he
        rw [descend_of_ok e]
        exact .inr ((descend_of_ok he').trans rfl)
    · rw [descend_of_error e]
      obtain hcut | he := hdeep
      · exact .inl hcut
      · have he' : body' d' { m.atLevel level with level := level + 1 }
            = .error s (n.atLevel (level + 1)) := he
        exact .inr ((descend_of_error he').trans rfl)

theorem carriesOver_remove (count : Nat) :
    CarriesOver (remove count : Action β ε Unit) (remove count) := by
  intro m level
  right
  rcases e : m.environment.pop? count with - | environment
  · have e' : (m.atLevel level).environment.pop? count = none := e
    rw [remove_of_no_pop e, remove_of_no_pop e']
    rfl
  · have e' : (m.atLevel level).environment.pop? count = some environment := e
    rw [remove_of_pop e, remove_of_pop e']
    rfl

/-- A run that was cut short is so behind the removal of frames. -/
theorem cut_remove {s : Stop} (h : s.IsOf [.depth]) (count : Nat) (m : Machine β ε) :
    Cut ((remove count >>= fun _ => throw s : Action β ε α) m) := by
  rcases e : m.environment.pop? count with - | environment
  · rw [bind_of_error (remove_of_no_pop e)]
    exact nofun
  · rw [bind_of_ok (remove_of_pop e)]
    exact h

theorem carriesOver_inside (site : Site) (frames : List (Frame (Value β)))
    {body body' : Action β ε α} (h : CarriesOver body body') :
    CarriesOver (inside site frames body) (inside site frames body') := by
  intro m level
  have hbody := carriesOver_bind (carriesOver_checkpoint site) (fun _ => h)
    { m with environment := m.environment.push frames } level
  have hremove {s : Action β ε α} (hs : CarriesOver s s) :=
    carriesOver_bind (carriesOver_remove frames.length) fun _ => hs
  rcases e : (checkpoint site >>= fun _ => body)
    { m with environment := m.environment.push frames } with ⟨v, n⟩ | ⟨f | c, n⟩ <;>
    rw [e] at hbody
  · obtain hcut | he := hbody
    · exact hcut.elim
    · rw [inside_of_ok e, inside_of_ok he]
      exact hremove (carriesOver_pure v) n level
  · rw [inside_of_fault e]
    obtain hcut | he := hbody
    · exact .inl (cut_remove hcut _ _)
    · rw [inside_of_fault he]
      exact hremove (carriesOver_throw _) n level
  · rw [inside_of_crash e]
    exact .inl nofun

end Action

end DrawLang
