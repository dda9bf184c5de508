/-
DrawLang/Proofs/Evaluation/Nesting.lean

Programs without function literals keep within the levels.  Where there is no literal there are no
functions, and so nothing is evaluated but parts of the program, each in those that it stands in
(`Moment.kept_of_steps`).  A level for a part is always one of a rule that was open when the
part was read.  While a text is read, no more than `nestingLimit` rules are open, and this is less
than `levelLimit`.

Main statement: `literal_free_programs_keep_levels`.
-/
import DrawLang.Proofs.Evaluation.Shown
import DrawLang.Proofs.Grammar.Nesting
import DrawLang.Proofs.Steps.Ahead
import DrawLang.Proofs.Steps.Termination

namespace DrawLang

open DrawLang.Action Moment

variable {ε : Type}

/-! ### Parts without literals -/

/-- No part of it is a function literal. -/
def Node.LiteralFree (n : Node) : Prop :=
  ∀ params body span, ¬ Relation.ReflTransGen Child n (.expr (.function params body span))

theorem Node.LiteralFree.child {n n' : Node} (h : n.LiteralFree) (hchild : n.Child n') :
    n'.LiteralFree :=
  fun params body span hin => h params body span (.head hchild hin)

/-- A part is free of literals if it is none and has only parts that are. -/
theorem Node.literalFree_of_children {n : Node}
    (hself : ∀ params body span, n ≠ .expr (.function params body span))
    (h : ∀ p ∈ n.children, p.2.LiteralFree) : n.LiteralFree := by
  intro params body span hin
  rcases Relation.ReflTransGen.cases_head hin with heq | ⟨n', hchild, hrest⟩
  · exact hself params body span heq
  · obtain ⟨j, hj⟩ := child_iff.1 hchild
    exact h (j, n') hj params body span hrest

/-- **Without literals there are no functions.** -/
theorem upkeep_literalFree :
    Upkeep (fun _ _ => True) (Value.EachFunction fun _ => False) fun _ => Node.LiteralFree where
  start _ := trivial
  definition _ _ _ := ⟨trivial, trivial⟩
  child := Node.LiteralFree.child
  plain := Value.inherited_eachFunction.plain
  literal hfree _ _ _ := absurd .refl (hfree _ _ _)
  rename h _ _ := (Value.eachFunction_function_iff.1 h).1.elim
  body h := (Value.eachFunction_function_iff.1 h).1.elim
  kept h := (Value.eachFunction_function_iff.1 h).2
  plan hcallee hargs site _ _ := Value.inherited_eachFunction.plan hcallee hargs site

namespace Moment

variable {source : Text} {program : Scope} {c c' : Moment ε}

/-- No function is called. -/
theorem not_call_of_upheld {P : Text → Nat → Prop} {X : Text → Node → Prop}
    (h : c.Upheld P (Value.EachFunction fun _ => False) X) (site : Site) (f : Function Code)
    (args : List (Value Code)) : c.focus ≠ .task (.call site (.function f) args) := by
  intro hc
  have hfocus := h.focus
  rw [hc] at hfocus
  exact (Value.eachFunction_function_iff.1 hfocus.2.1).1

/-! ### Levels and rules -/

/-- Where a part is ahead, at least as many rules were open when it was read as levels are going to
be active, its own one included. -/
def Covered (program : Scope) (c : Moment ε) : Prop :=
  ∀ k n, (k, n) ∈ c.ahead → ∃ d, (Node.scope program).Open d n ∧ k + n.levels ≤ d

/-- The program itself was read with one rule open. -/
theorem covered_start (source : Text) (program : Scope) (m : Machine Code ε) :
    Covered program ⟨.task (.scope source program), [], m⟩ := by
  intro k n hn
  rcases mem_ahead_iff.1 hn with ⟨hn, hk⟩ | hn
  · obtain rfl := List.mem_singleton.1 hn
    obtain rfl : k = 0 := hk
    exact ⟨1, .refl _, Nat.le_refl 1⟩
  · cases hn

/-- What stands in a part that a level is taken for has as many rules more as it takes levels. -/
theorem covered_of_follows (hread : Scope.ofText source = .ok program) (h : Follows c c')
    (hc : c.Covered program) : c'.Covered program := by
  intro k n hn
  rcases h k n hn with hn | ⟨n', k', hn', hlevels, hchild, rfl⟩
  · exact hc k n hn
  · obtain ⟨d, hopen, hle⟩ := hc k' n' hn'
    obtain ⟨j, hj⟩ := Node.child_iff.1 hchild
    have hown : n.levels ≤ j := (Node.In.formed hread hopen.reaches).levels_le hj
    refine ⟨d + j, hopen.tail hj, ?_⟩
    omega

/-- A task that takes a level and is no call of a function is a part that takes a level. -/
theorem exists_ahead_of_attempt {site : Site} (h : c.attempt? = some site)
    (hcall : ∀ site f args, c.focus ≠ .task (.call site (.function f) args)) :
    ∃ n, (c.levels, n) ∈ c.ahead ∧ n.levels = 1 := by
  obtain ⟨t | r, pending, m⟩ := c
  case ended => cases h
  cases t with
  | expr source x =>
    rcases x with ⟨a, span⟩ | ⟨params, body, span⟩ | ⟨callee, lists, span⟩
    · cases h
    · cases h
    · exact ⟨_, List.mem_cons_self, rfl⟩
  | scope source program => exact ⟨_, List.mem_cons_self, rfl⟩
  | call site callee args =>
    cases callee with
    | function f => exact absurd rfl (hcall site f args)
    | number | string | color | sequence | vector | shape | builtin => cases h
  | chain | lists | arguments | definitions | inside => cases h

/-- The parts that are ahead were read with enough rules open, the active levels are those that are
pending, and there are no more of them than rules can be open. -/
structure Kept (program : Scope) (c : Moment ε) : Prop where
  covered : c.Covered program
  level : c.machine.level = c.levels
  limit : c.machine.level ≤ nestingLimit

theorem kept_start (source : Text) (program : Scope) (host : ε) :
    Kept program ⟨.task (.scope source program), [], Machine.initial host⟩ :=
  ⟨covered_start source program _, rfl, Nat.zero_le nestingLimit⟩

/-- **A step that calls no function keeps levels below rules.** -/
theorem kept_of_step (hread : Scope.ofText source = .ok program) (h : Step c c')
    (hcall : ∀ site f args, c.focus ≠ .task (.call site (.function f) args))
    (hc : c.Kept program) : c'.Kept program := by
  have hlevel : c.machine.level = 0 + c.levels := hc.level.trans (Nat.zero_add _).symm
  refine ⟨covered_of_follows hread (follows_of_step h hcall) hc.covered,
    (level_of_steps (.single h) hlevel).trans (Nat.zero_add _), ?_⟩
  have hlimit := hc.limit
  cases move_of_step h with
  | deeper site body attempt left level levels focus =>
    -- the level is for a part, and its rule was one of those that were open
    obtain ⟨n, hn, htakes⟩ := exists_ahead_of_attempt attempt hcall
    obtain ⟨k, hopen, hle⟩ := hc.covered _ n hn
    have hk : k ≤ nestingLimit := Scope.nestsWithin_of_ofText hread k n hopen
    omega
  | full site attempt full level levels focus => omega
  | leave attempt level levels focus => omega
  | flat attempt level levels stop => omega

/-- No function is called in a program without literals. -/
theorem not_call_of_steps (hfree : (Node.scope program).LiteralFree) {host : ε}
    (h : Steps ⟨.task (.scope source program), [], Machine.initial host⟩ c) (site : Site)
    (f : Function Code) (args : List (Value Code)) :
    c.focus ≠ .task (.call site (.function f) args) := by
  refine not_call_of_upheld (upheld_of_steps upkeep_literalFree h ?_) site f args
  exact ⟨hfree, List.forall_mem_nil _, Environment.holds_empty⟩

theorem kept_of_steps (hread : Scope.ofText source = .ok program)
    (hfree : (Node.scope program).LiteralFree) {host : ε}
    (h : Steps ⟨.task (.scope source program), [], Machine.initial host⟩ c) : c.Kept program := by
  induction h with
  | refl => exact kept_start source program host
  | tail hsteps hstep ih => exact kept_of_step hread hstep (not_call_of_steps hfree hsteps) ih

end Moment

/-- The part that is to be evaluated as a whole, if there is one. -/
def Focus.node? : Focus → Option Node
  | .task (.expr _ x) => some (.expr x)
  | .task (.scope _ program) => some (.scope program)
  | _ => none

theorem Focus.mem_parts_of_node? {focus : Focus} {n : Node} (h : focus.node? = some n) :
    n ∈ focus.parts := by
  unfold node? at h
  split at h <;> cases h <;> exact List.mem_cons_self

/-! ### Evaluation -/

/-- **Programs without function literals keep within the levels.**  Evaluating such a program, where
nothing is bound, goes on step by step to its end, which is no fault for too many levels.  On the
way there are never more than `nestingLimit` levels, which is less than `levelLimit`.  Wherever a
part of the program is to be evaluated, a certain number of rules for scopes and expressions was
open when it was read, `nestingLimit` of them at most, and the active levels are not more than
those, the one for the part included.  The rule for scopes reads the program exactly if it has as
many levels left as rules are open at each part. -/
theorem literal_free_programs_keep_levels (source : Text) (program : Scope)
    (hread : Scope.ofText source = .ok program) (hfree : (Node.scope program).LiteralFree)
    (host : ε) :
    (∀ f m', Machine.evaluate source (Machine.initial host) = .error (.fault f) m' →
      f.kind ≠ .depth) ∧
    Steps ⟨.task (.scope source program), [], Machine.initial host⟩
      (after [] (Machine.evaluate source (Machine.initial host))) ∧
    (∀ c, Steps ⟨.task (.scope source program), [], Machine.initial host⟩ c →
      c.machine.level ≤ nestingLimit ∧
      ∀ n, c.focus.node? = some n → ∃ k, (Node.scope program).Open k n ∧
        (∀ k', (Node.scope program).Open k' n → k' = k) ∧
        c.machine.level + n.levels ≤ k ∧ k ≤ nestingLimit) ∧
    (∃ ts, source.tokens? = .ok ts ∧ ∀ levels,
      ((∃ rest, (Rule.scope levels).Reads ts program rest) ↔
        ∀ k n, (Node.scope program).Open k n → k ≤ levels)) ∧
    nestingLimit < levelLimit := by
  have hlimits : nestingLimit < levelLimit := by decide
  have hend := Machine.steps_evaluate hread (Machine.initial host)
  refine ⟨fun f m' hf hkind => ?_, hend, fun c hc => ?_, reads_program_iff hread, hlimits⟩
  · rw [hf] at hend
    obtain ⟨c, site, hc, hfull, -⟩ := full_of_depth hend hkind nofun rfl
    have hlimit := (kept_of_steps hread hfree hc).limit
    exact absurd hfull.2 (Nat.not_le.2 (Nat.lt_of_le_of_lt hlimit hlimits))
  · have hkept := kept_of_steps hread hfree hc
    refine ⟨hkept.limit, fun n hn => ?_⟩
    have hahead : (c.levels, n) ∈ c.ahead :=
      mem_ahead_iff.2 (.inl ⟨Focus.mem_parts_of_node? hn, rfl⟩)
    obtain ⟨k, hopen, hle⟩ := hkept.covered _ n hahead
    have hunique := Scope.existsUnique_open hread hopen.reaches
    exact ⟨k, hopen, fun k' hopen' => hunique.unique hopen' hopen, hkept.level ▸ hle,
      Scope.nestsWithin_of_ofText hread k n hopen⟩

/-- The derivation of `repeat("ab" 2)` behind `def n length(`. -/
def Grammar.Expression.repeated : Grammar.Expression :=
  .mk (.atom ⟨.builtin .repeat, "repeat".toList, 13, 1⟩ (.builtin .repeat))
    [⟨⟨.openParen, "(".toList, 19, 1⟩,
      [.mk (.atom ⟨.string "ab".toList, "\"ab\"".toList, 20, 1⟩ (.string "ab".toList)) [],
        .mk (.atom ⟨.number 2, "2".toList, 25, 1⟩ (.number 2)) []],
      ⟨.closeParen, ")".toList, 26, 1⟩⟩]

/-- The derivation of a program that defines the length of this. -/
def Grammar.Program.measured : Grammar.Program :=
  .mk [⟨⟨.define, "def".toList, 0, 1⟩, ⟨.identifier, "n".toList, 4, 1⟩, none,
      .mk [] (.mk (.atom ⟨.builtin .length, "length".toList, 6, 1⟩ (.builtin .length))
        [⟨⟨.openParen, "(".toList, 12, 1⟩, [.repeated], ⟨.closeParen, ")".toList, 27, 1⟩⟩])⟩]
    (.mk (.atom ⟨.identifier, "n".toList, 29, 1⟩ (.name "n".toList)) [])

/-- The text of this program. -/
def measuredSource : Text := "def n length(repeat(\"ab\" 2)) n".toList

theorem literalFree_measured : (Node.scope Grammar.Program.measured.tree).LiteralFree := by
  have hatom : ∀ a span, (Node.expr (.atom a span)).LiteralFree := fun a span =>
    Node.literalFree_of_children nofun (List.forall_mem_nil _)
  have hrepeated : (Node.expr Grammar.Expression.repeated.tree).LiteralFree :=
    Node.literalFree_of_children nofun (List.forall_mem_cons.2 ⟨hatom _ _,
      List.forall_mem_cons.2 ⟨hatom _ _, List.forall_mem_singleton.2 (hatom _ _)⟩⟩)
  refine Node.literalFree_of_children nofun (List.forall_mem_cons.2 ⟨?_,
    List.forall_mem_singleton.2 (hatom _ _)⟩)
  refine Node.literalFree_of_children nofun (List.forall_mem_singleton.2 ?_)
  exact Node.literalFree_of_children nofun (List.forall_mem_cons.2 ⟨hatom _ _,
    List.forall_mem_singleton.2 hrepeated⟩)

/-- The inner call is read with four rules open, and when it is its turn three levels are active. -/
theorem literal_free_programs_keep_levels_measured :
    Scope.ofText measuredSource = .ok Grammar.Program.measured.tree ∧
    (Node.scope Grammar.Program.measured.tree).LiteralFree ∧
    (∀ f m', Machine.evaluate measuredSource (Machine.initial ()) = .error (.fault f) m' →
      f.kind ≠ .depth) ∧
    ∃ c : Moment Unit,
      Steps ⟨.task (.scope measuredSource Grammar.Program.measured.tree), [],
        Machine.initial ()⟩ c ∧
      c.focus.node? = some (.expr Grammar.Expression.repeated.tree) ∧ c.machine.level = 3 ∧
      ∀ k, (Node.scope Grammar.Program.measured.tree).Open k
        (.expr Grammar.Expression.repeated.tree) ↔ k = 4 := by
  have hread : Scope.ofText measuredSource = .ok Grammar.Program.measured.tree :=
    Scope.ofText_eq_ok_iff.2 ⟨Grammar.Program.measured, ⟨.endOfInput, [], 30, 1⟩,
      by decide +kernel, rfl, by decide +kernel, by decide +kernel, rfl⟩
  obtain ⟨hdepth, -, hlevels, -⟩ :=
    literal_free_programs_keep_levels _ _ hread literalFree_measured ()
  have hopen : (Node.scope Grammar.Program.measured.tree).Open 4
      (.expr Grammar.Expression.repeated.tree) := by
    have hbody := (Node.Open.refl (.scope Grammar.Program.measured.tree)).tail List.mem_cons_self
    have hresult := hbody.tail List.mem_cons_self
    exact hresult.tail (.tail _ List.mem_cons_self)
  -- two scopes and the outer chain, whose callee is evaluated before
  have hturn : ∃ c : Moment Unit,
      Steps ⟨.task (.scope measuredSource Grammar.Program.measured.tree), [],
        Machine.initial ()⟩ c ∧
      c.focus.node? = some (.expr Grammar.Expression.repeated.tree) ∧ c.machine.level = 3 :=
    ⟨_, .head rfl (.head rfl (.head rfl (.head rfl (.head rfl (.head rfl (.head rfl (.head rfl
      (.head rfl (.head rfl (.head rfl (.head rfl .refl))))))))))), rfl, rfl⟩
  obtain ⟨c, hc, hnode, hlevel⟩ := hturn
  obtain ⟨k, -, hunique, -⟩ := (hlevels c hc).2 _ hnode
  refine ⟨hread, literalFree_measured, hdepth, c, hc, hnode, hlevel, fun k' => ⟨fun hk' => ?_, ?_⟩⟩
  · exact (hunique k' hk').trans (hunique 4 hopen).symm
  · rintro rfl
    exact hopen

end DrawLang
