/-
DrawLang/Proofs/Action/Heeding.lean

Actions that heed requests to stop.  Such an action takes a pending request away exactly
if it stops with an interruption; a value and any other fault leave the request as it was,
pending or not (`Heeded`).  The other faults that it can come to are of given kinds.

The rules below take an action apart.  Only the checkpoint takes a request away, and it
does so by stopping, so in a chain nothing runs behind it.
-/
import DrawLang.Proofs.Action.Brackets
import DrawLang.Proofs.Invocation.Plan

namespace DrawLang

/-- The kinds of faults that evaluation comes to by itself. -/
def mistakes : List FaultKind := [.identifier, .alreadyDefined, .depth] ++ misuses

/-- The stop is a fault of one of the kinds or a crash. -/
def Stop.IsOf (kinds : List FaultKind) (s : Stop) : Prop := ∀ f, s = .fault f → f.kind ∈ kinds

theorem Stop.isOf_at {kinds : List FaultKind} (source : Text) (offset : Nat) {wanted : Wanted}
    (got : Option Text) (h : wanted.kind ∈ kinds) :
    (Stop.at source offset wanted got).IsOf kinds := by
  unfold Stop.at Fault.at?
  rcases source.position? offset with - | p
  · exact nofun
  · rintro f ⟨⟩
    exact h

theorem Stop.Misuse.isOf {s : Stop} (h : s.Misuse) : s.IsOf mistakes := by
  rintro f rfl
  exact List.mem_append_right _ h

namespace Action

variable {β ε α γ δ : Type}

/-- A pending request was taken away by an interruption, or it is as it was: behind a value,
and behind a fault of one of the kinds.  A crash may lose a request, but makes none. -/
def Heeded (kinds : List FaultKind) (m : Machine β ε) : Except Stop α → Machine β ε → Prop
  | .ok _, m' => m'.cancelled = m.cancelled
  | .error (.fault f), m' =>
    (f.kind = .interruption ∧ m.cancelled = true ∧ m'.cancelled = false) ∨
      (f.kind ∈ kinds ∧ m'.cancelled = m.cancelled)
  | .error (.crash _), m' => m'.cancelled = true → m.cancelled = true

/-- On every machine the action heeds a pending request. -/
def Heeds (kinds : List FaultKind) (a : Action β ε α) : Prop := ∀ m, a.Ends m (Heeded kinds m)

variable {kinds kinds' : List FaultKind}

theorem Heeds.mono {a : Action β ε α} (h : Heeds kinds a) (hkinds : kinds ⊆ kinds') :
    Heeds kinds' a := by
  intro m
  refine (h m).mono fun r m' hr => ?_
  rcases r with (f | c) | v
  · exact hr.imp_right fun hf => ⟨hkinds hf.1, hf.2⟩
  · exact hr
  · exact hr

/-- The faults are interruptions, or of one of the kinds. -/
theorem Heeds.kind {a : Action β ε α} (h : Heeds kinds a) {m m' : Machine β ε} {f : Fault}
    (e : a m = .error (.fault f) m') : f.kind ∈ .interruption :: kinds := by
  rcases (ends_of_error e).1 (h m) with ⟨hkind, -, -⟩ | ⟨hkind, -⟩
  · exact List.mem_cons.2 (.inl hkind)
  · exact List.mem_cons_of_mem _ hkind

/-- Whether a request was pending is all that counts. -/
theorem Heeded.congr {m n m' n' : Machine β ε} {r : Except Stop α}
    (h : Heeded kinds m r m') (hm : n.cancelled = m.cancelled) (hm' : n'.cancelled = m'.cancelled) :
    Heeded kinds n r n' := by
  rcases r with (f | c) | v <;> simpa only [Heeded, hm, hm'] using h

/-- No request is made. -/
theorem Heeded.not_made {m m' : Machine β ε} {r : Except Stop α} (h : Heeded kinds m r m') :
    m'.cancelled = true → m.cancelled = true := by
  rcases r with (f | c) | v
  · rcases h with ⟨-, hm, -⟩ | ⟨-, hm⟩
    · exact fun _ => hm
    · exact hm.symm.trans
  · exact h
  · exact h.symm.trans

/-! ### Rules -/

theorem heeded_of_isOf {m m' : Machine β ε} {s : Stop} (hs : s.IsOf kinds)
    (hm : m'.cancelled = m.cancelled) : Heeded kinds m (.error s : Except Stop α) m' := by
  rcases s with f | c
  · exact .inr ⟨hs f rfl, hm⟩
  · exact hm.symm.trans

theorem heeds_pure (v : α) : Heeds kinds (pure v : Action β ε α) := fun _ => rfl

theorem heeds_throw {s : Stop} (hs : s.IsOf kinds) : Heeds kinds (throw s : Action β ε α) :=
  fun _ => heeded_of_isOf hs rfl

theorem heeds_bind {a : Action β ε α} {f : α → Action β ε γ} (ha : Heeds kinds a)
    (hf : ∀ v, Heeds kinds (f v)) : Heeds kinds (a >>= f) := by
  intro m
  refine ends_bind.2 ((ha m).mono ?_)
  rintro ((g | c) | v) m' hm
  · exact hm
  · exact hm
  -- behind a value the request is as it was, so the second part meets it
  · exact (hf v m').mono fun r m'' hr => hr.congr hm.symm rfl

theorem heeds_checkpoint (site : Site) : Heeds kinds (checkpoint site : Action β ε Unit) := by
  intro m
  rcases hc : m.cancelled with - | -
  · exact (ends_of_ok (checkpoint_of_calm site hc)).2 rfl
  · refine (ends_of_error (checkpoint_of_cancelled site hc)).2 ?_
    rcases e : site.blame .completion "interruption".toList with f | c
    · have hkind : (site.blame .completion "interruption".toList).IsOf [.interruption] :=
        Stop.isOf_at _ _ _ (List.mem_singleton.2 rfl)
      exact .inl ⟨List.mem_singleton.1 (hkind f e), hc, rfl⟩
    · exact nofun

theorem heeds_get : Heeds kinds (get : Action β ε (Machine β ε)) := fun _ => rfl

theorem heeds_stamp : Heeds kinds (stamp : Action β ε Nat) := fun _ => rfl

theorem heeds_known (site : Site) (name : Text) :
    Heeds mistakes (known site name : Action β ε (Value β)) := by
  intro m
  rcases e : m.environment.find? name with - | v
  · exact (ends_of_error (known_of_free e)).2 (heeded_of_isOf (Stop.isOf_at _ _ _ (by decide)) rfl)
  · exact (ends_of_ok (known_of_bound e)).2 rfl

/-! ### Brackets -/

theorem heeds_descend (site : Site) {deeper : Option δ} {body : δ → Action β ε α}
    (h : ∀ d, deeper = some d → Heeds mistakes (body d)) :
    Heeds mistakes (descend site deeper body) := by
  intro m
  rcases deeper with - | d
  · exact heeded_of_isOf (Stop.isOf_at _ _ _ (show FaultKind.depth ∈ mistakes by decide)) rfl
  · have hbody := h d rfl { m with level := m.level + 1 }
    rcases e : body d { m with level := m.level + 1 } with ⟨v, m'⟩ | ⟨s, m'⟩
    · exact (ends_of_ok (descend_of_ok e)).2 (((ends_of_ok e).1 hbody).congr rfl rfl)
    · exact (ends_of_error (descend_of_error e)).2 (((ends_of_error e).1 hbody).congr rfl rfl)

/-- Removing frames behind an outcome takes no request away. -/
theorem heeded_remove {m m' : Machine β ε} {r : Except Stop α} (h : Heeded kinds m r m')
    (count : Nat) :
    (remove count >>= fun _ => check r).Ends m' (Heeded kinds m) := by
  rcases e : m'.environment.pop? count with - | environment
  · exact (ends_of_error (bind_of_error (remove_of_no_pop e) _)).2 h.not_made
  · rw [Ends, bind_of_ok (remove_of_pop e)]
    rcases r with s | v
    · exact h.congr rfl rfl
    · exact h.congr rfl rfl

theorem heeds_inside (site : Site) (frames : List (Frame (Value β))) {body : Action β ε α}
    (h : Heeds kinds body) : Heeds kinds (inside site frames body) := by
  intro m
  have hbody := heeds_bind (heeds_checkpoint site) (fun _ => h)
    { m with environment := m.environment.push frames }
  rcases e : (checkpoint site >>= fun _ => body)
    { m with environment := m.environment.push frames } with ⟨v, m'⟩ | ⟨f | c, m'⟩
  · have hm' : Heeded kinds m (.ok v) m' := ((ends_of_ok e).1 hbody).congr rfl rfl
    rw [Ends, inside_of_ok e]
    exact heeded_remove hm' frames.length
  · have hm' : Heeded kinds m (.error (.fault f) : Except Stop α) m' :=
      ((ends_of_error e).1 hbody).congr rfl rfl
    rw [Ends, inside_of_fault e]
    exact heeded_remove hm' frames.length
  · have hm' : Heeded kinds m (.error (.crash c) : Except Stop α) m' :=
      ((ends_of_error e).1 hbody).congr rfl rfl
    exact (ends_of_error (inside_of_crash e)).2 hm'

end Action

end DrawLang
