/-
DrawLang/Proofs/Tree/Nesting.lean

How deep the parts of a tree are nested.  While a part is read, some rules for scopes and
expressions are open: those of the parts around it and its own.  A callee has no rule of its own,
since it is read by the rule for the chain of calls that it is in; every other part has one.
`m.Open k n` counts them from `m` on, along the way from `m` to `n`.

In a well-formed tree the spans of what stands in a part are apart from each other
(`Node.Formed.encloses_children`), so there is only one way to a part and only one number of rules
open there (`Node.Open.unique`).

Evaluation takes a level for a scope and for a chain of calls.  These are the parts that other parts
are evaluated in, and each of those has a rule of its own for the level that it takes
(`Node.Formed.levels_le`).
-/
import DrawLang.Proofs.Tree.Formed

namespace DrawLang

/-! ### Enclosed spans -/

namespace Span.Encloses

variable {s : Span}

theorem sublist {inner inner' : List Span} (h : s.Encloses inner) (hsub : inner'.Sublist inner) :
    s.Encloses inner' :=
  ⟨fun u hu => h.inside u (hsub.subset hu), h.apart.sublist hsub⟩

theorem self (s : Span) : s.Encloses [s] :=
  ⟨List.forall_mem_singleton.2 ⟨Nat.le_refl _, Nat.le_refl _⟩, List.pairwise_singleton _ _⟩

/-- What the enclosed spans enclose is enclosed, in the same order. -/
theorem refine (rows : List (Span × List Span)) (h : s.Encloses (rows.map Prod.fst))
    (hrows : ∀ row ∈ rows, row.1.Encloses row.2) : s.Encloses (rows.flatMap Prod.snd) := by
  constructor
  · intro u hu
    obtain ⟨row, hrow, hu⟩ := List.mem_flatMap.1 hu
    have houter := h.inside row.1 (List.mem_map_of_mem hrow)
    have hinner := (hrows row hrow).inside u hu
    omega
  · refine List.pairwise_flatMap.2 ⟨fun row hrow => (hrows row hrow).apart, ?_⟩
    refine (List.pairwise_map.1 h.apart).imp_of_mem fun {row row'} hrow hrow' hle u hu v hv => ?_
    have hu := (hrows row hrow).inside u hu
    have hv := (hrows row' hrow').inside v hv
    omega

end Span.Encloses

namespace Node

variable {source : Text} {m n c : Node} {j j' k k' : Nat}

/-! ### Parts with their rules -/

/-- The parts that stand directly in a part, in order, each with the number of rules that are its
own. -/
def children : Node → List (Nat × Node)
  | scope s => s.definitions.map (fun d => (1, scope d.body)) ++ [(1, expr s.result)]
  | expr (.atom _ _) => []
  | expr (.function _ body _) => [(1, expr body)]
  | expr (.calls callee lists _) =>
    (0, expr callee) :: lists.flatMap fun list => list.items.map fun x => (1, expr x)

theorem child_iff : m.Child n ↔ ∃ j, (j, n) ∈ m.children := by
  constructor
  · intro h
    cases h with
    | definition hd => exact ⟨1, List.mem_append_left _ (List.mem_map_of_mem hd)⟩
    | result => exact ⟨1, List.mem_append_right _ List.mem_cons_self⟩
    | function => exact ⟨1, List.mem_cons_self⟩
    | callee => exact ⟨0, List.mem_cons_self⟩
    | argument _ _ hlist hx =>
      exact ⟨1, .tail _ (List.mem_flatMap.2 ⟨_, hlist, List.mem_map_of_mem hx⟩)⟩
  · rintro ⟨j, h⟩
    rcases m with s | (⟨a, span⟩ | ⟨params, body, span⟩ | ⟨callee, lists, span⟩)
    · rcases List.mem_append.1 h with h | h
      · obtain ⟨d, hd, heq⟩ := List.mem_map.1 h
        cases heq
        exact .definition hd
      · cases List.mem_singleton.1 h
        exact .result s
    · cases h
    · cases List.mem_singleton.1 h
      exact .function params body span
    · rcases List.mem_cons.1 h with h | h
      · cases h
        exact .callee callee lists span
      · obtain ⟨list, hlist, h⟩ := List.mem_flatMap.1 h
        obtain ⟨x, hx, heq⟩ := List.mem_map.1 h
        cases heq
        exact .argument callee span hlist hx

/-- So many rules are open where the second part is read, from that of the first one on. -/
inductive Open : Node → Nat → Node → Prop
  | refl (n : Node) : Open n 1 n
  | head {m c n : Node} {j k : Nat} (hchild : (j, c) ∈ m.children) (hrest : Open c k n) :
    Open m (j + k) n

namespace Open

theorem tail (h : m.Open k c) (hchild : (j, n) ∈ c.children) : m.Open (k + j) n := by
  induction h with
  | refl => exact Nat.add_comm j 1 ▸ .head hchild (.refl n)
  | head hfirst _ ih => exact Nat.add_assoc _ _ _ ▸ .head hfirst (ih hchild)

theorem pos (h : m.Open k n) : 0 < k := by
  induction h with
  | refl => exact Nat.one_pos
  | head _ _ ih => exact Nat.add_pos_right _ ih

theorem reaches (h : m.Open k n) : Relation.ReflTransGen Child m n := by
  induction h with
  | refl => exact .refl
  | head hchild _ ih => exact .head (child_iff.2 ⟨_, hchild⟩) ih

theorem exists_of_reaches (h : Relation.ReflTransGen Child m n) : ∃ k, m.Open k n := by
  induction h with
  | refl => exact ⟨1, .refl m⟩
  | tail _ hchild ih =>
    obtain ⟨k, hk⟩ := ih
    obtain ⟨j, hj⟩ := child_iff.1 hchild
    exact ⟨k + j, hk.tail hj⟩

end Open

/-! ### The most rules that are open -/

/-- No more than so many rules are open where any part is read, from that of the first one on. -/
def NestsWithin (limit : Nat) (m : Node) : Prop := ∀ k n, m.Open k n → k ≤ limit

theorem not_nestsWithin_zero : ¬ m.NestsWithin 0 := fun h =>
  absurd (h 1 m (.refl m)) (Nat.not_succ_le_zero 0)

theorem nestsWithin_succ_iff {limit : Nat} :
    m.NestsWithin (limit + 1) ↔ ∀ p ∈ m.children, p.2.NestsWithin (limit + 1 - p.1) := by
  constructor
  · intro h p hp k n hk
    have hle := h _ _ (.head hp hk)
    omega
  · intro h k n hk
    cases hk with
    | refl => exact Nat.le_add_left 1 limit
    | head hchild hrest =>
      have hle := h _ hchild _ _ hrest
      have hpos := hrest.pos
      omega

theorem nestsWithin_calls_iff {callee : Expr} {lists : List (Arguments Expr)} {span : Span}
    {limit : Nat} : (expr (.calls callee lists span)).NestsWithin (limit + 1) ↔
      (expr callee).NestsWithin (limit + 1) ∧
        ∀ list ∈ lists, ∀ x ∈ list.items, (expr x).NestsWithin limit := by
  rw [nestsWithin_succ_iff, children, List.forall_mem_cons]
  refine and_congr_right fun _ => ⟨fun h list hlist x hx => ?_, fun h p hp => ?_⟩
  · exact h (1, expr x) (List.mem_flatMap.2 ⟨list, hlist, List.mem_map_of_mem hx⟩)
  · obtain ⟨list, hlist, hp⟩ := List.mem_flatMap.1 hp
    obtain ⟨x, hx, rfl⟩ := List.mem_map.1 hp
    exact h list hlist x hx

/-! ### Trees are finite -/

theorem Child.sizeOf_lt (h : m.Child n) : sizeOf n < sizeOf m := by
  cases h with
  | @definition s d hd =>
    have hlt := List.sizeOf_lt_of_mem hd
    obtain ⟨ds, result, span⟩ := s
    obtain ⟨name, nameSpan, body, span'⟩ := d
    simp only [scope.sizeOf_spec, Scope.mk.sizeOf_spec, Definition.mk.sizeOf_spec] at hlt ⊢
    omega
  | result s =>
    obtain ⟨ds, result, span⟩ := s
    simp only [scope.sizeOf_spec, expr.sizeOf_spec, Scope.mk.sizeOf_spec]
    omega
  | function =>
    simp only [expr.sizeOf_spec, Expr.function.sizeOf_spec]
    omega
  | callee =>
    simp only [expr.sizeOf_spec, Expr.calls.sizeOf_spec]
    omega
  | @argument _ _ _ _ list hlist hx =>
    have hlt := List.sizeOf_lt_of_mem hlist
    have hlt' := List.sizeOf_lt_of_mem hx
    obtain ⟨items, span⟩ := list
    simp only [expr.sizeOf_spec, Expr.calls.sizeOf_spec, Arguments.mk.sizeOf_spec] at hlt hlt' ⊢
    omega

theorem Open.sizeOf_le (h : m.Open k n) : sizeOf n ≤ sizeOf m := by
  induction h with
  | refl => exact Nat.le_refl _
  | head hchild _ ih =>
    have hlt := Child.sizeOf_lt (child_iff.2 ⟨_, hchild⟩)
    omega

/-! ### Well-formed trees -/

/-- **What stands in a well-formed part is inside of its span**, in order and without overlaps. -/
theorem Formed.encloses_children (h : m.Formed source) :
    m.span.Encloses (m.children.map fun p => p.2.span) := by
  cases h with
  | @scope s hspan hparts hdefinitions =>
    -- a definition is around its body, and the result is what it is
    have hrows := Span.Encloses.refine (s := s.span)
      (s.definitions.map (fun d => (d.span, [d.body.span])) ++
        [(s.result.span, [s.result.span])])
      (by
        rw [List.map_append, List.map_map]
        exact hparts)
      (List.forall_mem_append.2 ⟨List.forall_mem_map.2 fun d hd =>
        (hdefinitions d hd).2.2.sublist (List.sublist_cons_self _ _),
        List.forall_mem_singleton.2 (.self _)⟩)
    rw [List.flatMap_append, List.flatMap_map, ← List.map_eq_flatMap] at hrows
    rw [children, List.map_append, List.map_map]
    exact hrows
  | atom => exact ⟨List.forall_mem_nil _, List.Pairwise.nil⟩
  | function hspan hparams hparts => exact hparts.sublist (List.sublist_append_right _ _)
  | @calls a calleeSpan span lists hspan hlists htouch hparts harguments =>
    -- an argument list is around its items, and the callee is what it is
    have hrows := Span.Encloses.refine (s := span)
      ((calleeSpan, [calleeSpan]) :: lists.map fun list =>
        (list.span, list.items.map Expr.span))
      (by
        rw [List.map_cons, List.map_map]
        exact hparts)
      (List.forall_mem_cons.2 ⟨.self _, List.forall_mem_map.2 fun list hlist =>
        (harguments list hlist).2⟩)
    rw [List.flatMap_cons, List.flatMap_map] at hrows
    rw [children, List.map_cons, List.map_flatMap]
    simp only [List.map_map]
    exact hrows

/-- The part has the span within its own. -/
def Holds (s : Span) (n : Node) : Prop := n.span.start ≤ s.start ∧ s.stop ≤ n.span.stop

/-- A part is inside of what it stands in. -/
theorem Open.holds (h : m.Open k n)
    (hformed : ∀ n, Relation.ReflTransGen Child m n → n.Formed source) : m.Holds n.span := by
  induction h with
  | refl => exact ⟨Nat.le_refl _, Nat.le_refl _⟩
  | @head m c n j k hchild _ ih =>
    have hinside : m.Holds c.span :=
      (hformed _ .refl).encloses_children.inside _ (List.mem_map_of_mem hchild)
    have hrest : c.Holds n.span :=
      ih fun n hn => hformed n (.head (child_iff.2 ⟨_, hchild⟩) hn)
    exact ⟨Nat.le_trans hinside.1 hrest.1, Nat.le_trans hrest.2 hinside.2⟩

/-- Parts of a well-formed part that have something in common are the same. -/
theorem Formed.eq_of_holds (h : m.Formed source) {p p' : Nat × Node} (hp : p ∈ m.children)
    (hp' : p' ∈ m.children) {s : Span} (hs : s.start < s.stop) (hholds : p.2.Holds s)
    (hholds' : p'.2.Holds s) : p = p' := by
  have hapart := List.pairwise_map.1 h.encloses_children.apart
  have hnone : ∀ {q q' : Nat × Node}, q.2.span.stop ≤ q'.2.span.start → q.2.Holds s →
      ¬ q'.2.Holds s := by
    intro q q' hle hq hq'
    have hbefore := Nat.le_trans (Nat.le_trans hq.2 hle) hq'.1
    omega
  refine List.Pairwise.forall_of_forall_of_flip
    (R := fun q q' : Nat × Node => q.2.Holds s → q'.2.Holds s → q = q') (fun _ _ _ _ => rfl)
    (hapart.imp ?_) (hapart.imp ?_) hp hp' hholds hholds'
  · exact fun hle hq hq' => absurd hq' (hnone hle hq)
  · exact fun hle hq' hq => absurd hq' (hnone hle hq)

/-- **The number of rules that are open at a part is determined.** -/
theorem Open.unique (h : m.Open k n) (h' : m.Open k' n)
    (hformed : ∀ n, Relation.ReflTransGen Child m n → n.Formed source) : k = k' := by
  induction h generalizing k' with
  | refl =>
    -- a part does not stand in itself
    cases h' with
    | refl => rfl
    | head hchild hrest =>
      have hlt := Child.sizeOf_lt (child_iff.2 ⟨_, hchild⟩)
      exact absurd hrest.sizeOf_le (Nat.not_le.2 hlt)
  | @head m c n j k hchild hrest ih =>
    have hc : ∀ {c j}, (j, c) ∈ m.children →
        ∀ n, Relation.ReflTransGen Child c n → n.Formed source :=
      fun hchild n hn => hformed n (.head (child_iff.2 ⟨_, hchild⟩) hn)
    cases h' with
    | refl =>
      have hlt := Child.sizeOf_lt (child_iff.2 ⟨_, hchild⟩)
      exact absurd hrest.sizeOf_le (Nat.not_le.2 hlt)
    | @head _ c' _ j' k' hchild' hrest' =>
      have hn := (hc hchild n hrest.reaches).reaches.nonempty
      have heq := (hformed m .refl).eq_of_holds hchild hchild' hn (hrest.holds (hc hchild))
        (hrest'.holds (hc hchild'))
      obtain ⟨rfl, rfl⟩ := Prod.mk.inj heq
      rw [ih hrest' (hc hchild)]

/-! ### Levels -/

/-- The number of levels that evaluation takes for the part itself. -/
def levels : Node → Nat
  | scope _ => 1
  | expr (.calls _ _ _) => 1
  | expr (.atom _ _) | expr (.function _ _ _) => 0

theorem levels_le_one (n : Node) : n.levels ≤ 1 := by
  unfold levels
  split <;> omega

/-- **What stands in a well-formed part takes a level only if it has a rule of its own.** -/
theorem Formed.levels_le (h : m.Formed source) (hchild : (j, c) ∈ m.children) : c.levels ≤ j := by
  cases h with
  | scope =>
    rcases List.mem_append.1 hchild with hchild | hchild
    · obtain ⟨d, -, heq⟩ := List.mem_map.1 hchild
      cases heq
      exact levels_le_one _
    · cases List.mem_singleton.1 hchild
      exact levels_le_one _
  | atom => cases hchild
  | function =>
    cases List.mem_singleton.1 hchild
    exact levels_le_one _
  | calls =>
    rcases List.mem_cons.1 hchild with heq | hchild
    -- the callee is one token
    · cases heq
      exact Nat.le_refl 0
    · obtain ⟨list, -, hchild⟩ := List.mem_flatMap.1 hchild
      obtain ⟨x, -, heq⟩ := List.mem_map.1 hchild
      cases heq
      exact levels_le_one _

end Node

end DrawLang
