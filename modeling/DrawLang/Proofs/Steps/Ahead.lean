/-
DrawLang/Proofs/Steps/Ahead.lean

What is still ahead at a moment: the parts of programs that are yet to be evaluated, those of what
is to be done and those of what is pending, each with the number of levels that are going to be
active when it is its turn.

A step takes parts away, and brings up no others than what stands in a part that it takes a level
for; these are one level deeper (`Moment.follows_of_step`).  Only a call of a function goes on with
a part that was not ahead, namely the body of the function.
-/
import DrawLang.Proofs.Steps.Levels
import DrawLang.Proofs.Tree.Nesting

namespace DrawLang

open DrawLang.Action

variable {ε : Type}

/-! ### Parts -/

/-- The items of some argument lists. -/
def listsParts (lists : List (Arguments Expr)) : List Node :=
  lists.flatMap fun list => list.items.map .expr

/-- The bodies of some definitions, and the result behind them. -/
def scopeParts (ds : List (Definition Scope)) (result : Expr) : List Node :=
  ds.map (fun d => .scope d.body) ++ [.expr result]

/-- The parts of what is to be done. -/
def Task.parts : Task → List Node
  | .expr _ x => [.expr x]
  | .scope _ program => [.scope program]
  | .call _ _ _ => []
  | .chain _ callee ls => .expr callee :: listsParts ls
  | .lists _ _ _ ls => listsParts ls
  | .arguments _ _ _ _ _ todo more => todo.map .expr ++ listsParts more
  | .definitions _ ds result => scopeParts ds result
  | .inside _ _ _ body => body.parts

/-- The parts of what is pending. -/
def Pending.parts : Pending → List Node
  | .lists _ _ ls => listsParts ls
  | .argument _ _ _ _ _ todo more => todo.map .expr ++ listsParts more
  | .definition _ _ ds result => scopeParts ds result
  | .frames _ | .level => []

/-- The parts of what is to be done, if something is. -/
def Focus.parts : Focus → List Node
  | .task t => t.parts
  | .ended _ => []

namespace Moment

/-- The parts of what is pending, each with the number of levels that are pending behind it. -/
def pendingAhead : List Pending → List (Nat × Node)
  | [] => []
  | p :: pending => p.parts.map (pending.countP Pending.isLevel, ·) ++ pendingAhead pending

/-- The parts that are yet to be evaluated, each with the number of levels that are pending then. -/
def ahead (c : Moment ε) : List (Nat × Node) :=
  c.focus.parts.map (c.levels, ·) ++ pendingAhead c.pending

theorem mem_ahead_iff {c : Moment ε} {k : Nat} {n : Node} :
    (k, n) ∈ c.ahead ↔ (n ∈ c.focus.parts ∧ k = c.levels) ∨ (k, n) ∈ pendingAhead c.pending := by
  rw [ahead, List.mem_append, List.mem_map]
  refine or_congr_left ⟨?_, fun ⟨hn, hk⟩ => ⟨n, hn, by rw [hk]⟩⟩
  rintro ⟨n, hn, heq⟩
  cases heq
  exact ⟨hn, rfl⟩

theorem mem_pendingAhead_cons_iff {p : Pending} {pending : List Pending} {k : Nat} {n : Node} :
    (k, n) ∈ pendingAhead (p :: pending) ↔
      (n ∈ p.parts ∧ k = pending.countP Pending.isLevel) ∨ (k, n) ∈ pendingAhead pending := by
  rw [pendingAhead, List.mem_append, List.mem_map]
  refine or_congr_left ⟨?_, fun ⟨hn, hk⟩ => ⟨n, hn, by rw [hk]⟩⟩
  rintro ⟨n, hn, heq⟩
  cases heq
  exact ⟨hn, rfl⟩

/-- Nothing is ahead but what was, and what stands in a part that was and takes a level. -/
def Follows (c c' : Moment ε) : Prop :=
  ∀ k n, (k, n) ∈ c'.ahead → (k, n) ∈ c.ahead ∨
    ∃ m k', (k', m) ∈ c.ahead ∧ m.levels = 1 ∧ m.Child n ∧ k = k' + 1

/-! ### Steps -/

variable {f f' : Focus} {t t' : Task} {p : Pending} {pending : List Pending} {m m' : Machine Code ε}

/-- Where something has ended, only what is pending is ahead. -/
theorem follows_ended (r : Except Stop (Value Code)) :
    Follows ⟨f, pending, m⟩ ⟨.ended r, pending, m'⟩ :=
  fun _ _ hn => .inl (List.mem_append_right _ hn)

theorem follows_after (r : EStateM.Result Stop (Machine Code ε) (Value Code)) :
    Follows ⟨f, pending, m⟩ (after pending r) := by
  rcases r with ⟨v, m'⟩ | ⟨s, m'⟩
  · exact follows_ended (.ok v)
  · exact follows_ended (.error s)

/-- A step that goes on with the same parts. -/
theorem follows_task (h : ∀ n ∈ t'.parts, n ∈ t.parts) :
    Follows ⟨.task t, pending, m⟩ ⟨.task t', pending, m'⟩ := by
  intro k n hn
  rw [mem_ahead_iff] at hn ⊢
  exact .inl (hn.imp_left (And.imp_left (h n)))

/-- A step that goes on with some of the parts and leaves others pending. -/
theorem follows_split (hp : p.isLevel = false) (h : ∀ n ∈ f'.parts, n ∈ t.parts)
    (hpending : ∀ n ∈ p.parts, n ∈ t.parts) :
    Follows ⟨.task t, pending, m⟩ ⟨f', p :: pending, m'⟩ := by
  have hlevels : (p :: pending).countP Pending.isLevel = pending.countP Pending.isLevel :=
    List.countP_cons_of_neg (Bool.eq_false_iff.1 hp)
  intro k n hn
  rw [mem_ahead_iff, mem_pendingAhead_cons_iff] at hn
  rw [mem_ahead_iff]
  rcases hn with ⟨hn, hk⟩ | ⟨hn, hk⟩ | hn
  · exact .inl (.inl ⟨h n hn, hk.trans hlevels⟩)
  · exact .inl (.inl ⟨hpending n hn, hk⟩)
  · exact .inl (.inr hn)

/-- A part that takes a level goes on with what stands in it, one level deeper. -/
theorem follows_enter (part : Node) (ht : t.parts = [part]) (hpart : part.levels = 1)
    (hbody : ∀ n ∈ t'.parts, part.Child n) (site : Site) :
    Follows ⟨.task t, pending, m⟩ (enter pending m site t') := by
  unfold enter
  split
  · exact follows_ended _
  intro k n hn
  rw [mem_ahead_iff, mem_pendingAhead_cons_iff] at hn
  rcases hn with ⟨hn, hk⟩ | ⟨hn, -⟩ | hn
  · refine .inr ⟨part, pending.countP Pending.isLevel, ?_, hpart, hbody n hn, ?_⟩
    · refine mem_ahead_iff.2 (.inl ⟨?_, rfl⟩)
      exact (show (Focus.task t).parts = [part] from ht) ▸ List.mem_cons_self
    · exact hk.trans (List.countP_cons_of_pos rfl)
  · exact absurd hn List.not_mem_nil
  · exact .inl (mem_ahead_iff.2 (.inr hn))

/-- A step that goes on with what was pending. -/
theorem follows_pending {r : Except Stop (Value Code)} (h : ∀ n ∈ f'.parts, n ∈ p.parts) :
    Follows ⟨.ended r, p :: pending, m⟩ ⟨f', pending, m'⟩ := by
  intro k n hn
  rw [mem_ahead_iff] at hn ⊢
  rw [mem_pendingAhead_cons_iff]
  exact .inl (.inr (hn.imp_left (And.imp_left (h n))))

/-- Behind an action that goes on with what was pending nothing else is ahead. -/
theorem follows_past {r : Except Stop (Value Code)}
    (r' : EStateM.Result Stop (Machine Code ε) (Value Code)) :
    Follows ⟨.ended r, p :: pending, m⟩ (after pending r') := by
  rcases r' with ⟨v, m'⟩ | ⟨s, m'⟩
  · exact follows_pending (List.forall_mem_nil _)
  · exact follows_pending (List.forall_mem_nil _)

theorem follows_start (ht : ∀ site f args, t ≠ .call site (.function f) args) :
    Follows ⟨.task t, pending, m⟩ (start pending m t) := by
  cases t with
  | expr source x =>
    rcases x with ⟨a, span⟩ | ⟨params, body, span⟩ | ⟨callee, lists, span⟩
    · exact follows_after _
    · exact follows_after _
    · refine follows_enter (.expr (.calls callee lists span)) rfl rfl ?_ _
      refine List.forall_mem_cons.2 ⟨.callee callee lists span, fun n hn => ?_⟩
      obtain ⟨list, hlist, hn⟩ := List.mem_flatMap.1 hn
      obtain ⟨x, hx, rfl⟩ := List.mem_map.1 hn
      exact .argument callee span hlist hx
  | scope source program =>
    refine follows_enter (.scope program) rfl rfl ?_ _
    refine List.forall_mem_append.2 ⟨List.forall_mem_map.2 fun d hd => .definition hd, ?_⟩
    exact List.forall_mem_singleton.2 (.result program)
  | call site callee args =>
    have hplain : ∀ f, callee ≠ .function f := fun f hf => ht site f args (by rw [hf])
    rw [start_call_of_plain pending m site args hplain]
    exact follows_after _
  | chain source callee lists =>
    exact follows_split rfl (List.forall_mem_singleton.2 (.head _)) fun n hn => .tail _ hn
  | lists source callee span lists =>
    rcases lists with - | ⟨list, more⟩
    · exact follows_ended _
    · exact follows_task fun n hn => hn
  | arguments source callee span list args todo more =>
    rcases todo with - | ⟨x, todo⟩
    · exact follows_split rfl (List.forall_mem_nil _) fun n hn => hn
    · exact follows_split rfl (List.forall_mem_singleton.2 (.head _)) fun n hn => .tail _ hn
  | definitions source ds result =>
    rcases ds with - | ⟨first, ds⟩
    · exact follows_task fun n hn => hn
    · exact follows_split rfl (List.forall_mem_singleton.2 (.head _)) fun n hn => .tail _ hn
  | inside site frame frames body =>
    rw [start]
    rcases checkpoint site { m with environment := m.environment.push (frame :: frames) } with
      ⟨u, m'⟩ | ⟨s, m'⟩
    · exact follows_split rfl (fun n hn => hn) (List.forall_mem_nil _)
    · exact follows_split rfl (List.forall_mem_nil _) (List.forall_mem_nil _)

theorem follows_resume (r : Except Stop (Value Code)) :
    Follows ⟨.ended r, p :: pending, m⟩ (resume pending m p r) := by
  cases p with
  | level => exact follows_pending (List.forall_mem_nil _)
  | frames count =>
    rcases r with (f | c) | v
    · exact follows_past _
    · exact follows_pending (List.forall_mem_nil _)
    · exact follows_past _
  | lists source span lists =>
    rcases r with s | v
    · exact follows_pending (List.forall_mem_nil _)
    · exact follows_pending fun n hn => hn
  | argument source callee span list args todo more =>
    rcases r with s | v
    · exact follows_pending (List.forall_mem_nil _)
    · exact follows_pending fun n hn => hn
  | definition source first ds result =>
    rcases r with s | v
    · exact follows_pending (List.forall_mem_nil _)
    · rw [resume]
      rcases define (first.site source) first.name v m with ⟨u, m'⟩ | ⟨s, m'⟩
      · exact follows_pending fun n hn => hn
      · exact follows_pending (List.forall_mem_nil _)

/-- **A step brings up no parts but those that stand in one it takes a level for**, unless it
calls a function. -/
theorem follows_of_step {c c' : Moment ε} (h : Step c c')
    (hcall : ∀ site f args, c.focus ≠ .task (.call site (.function f) args)) : Follows c c' := by
  obtain ⟨t | r, pending, m⟩ := c
  · obtain rfl : start pending m t = c' := Option.some.inj h
    exact follows_start fun site f args ht => hcall site f args (congrArg Focus.task ht)
  · rcases pending with - | ⟨p, pending⟩
    · cases h
    · obtain rfl : resume pending m p r = c' := Option.some.inj h
      exact follows_resume r

end Moment

end DrawLang
