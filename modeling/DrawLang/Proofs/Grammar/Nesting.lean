/-
DrawLang/Proofs/Grammar/Nesting.lean

How deep the rules nest while a text is read.  The height of a derivation is the most rules that are
open at any part of its tree (`Program.height_le_iff`).  So the rule for scopes, with some levels
left, reads a program exactly if nowhere more rules than that are open (`reads_program_iff`), and in
the tree of a text there are never more than `nestingLimit` (`Scope.nestsWithin_of_ofText`).  Since
such a tree is well formed, the number of rules that are open at a part of it is determined
(`Scope.existsUnique_open`).
-/
import DrawLang.Proofs.Grammar.Formed
import DrawLang.Proofs.Tree.Nesting

namespace DrawLang

namespace Grammar

open Node

/-! ### Heights -/

mutual

theorem Expression.height_le_iff : (x : Expression) → (limit : Nat) →
    (x.height ≤ limit ↔ (expr x.tree).NestsWithin limit)
  | .mk p calls, 0 => by
    rw [Expression.height]
    exact ⟨fun h => absurd h (Nat.not_succ_le_zero _), fun h => absurd h not_nestsWithin_zero⟩
  | .mk p [], limit + 1 => by
    rw [Expression.height, callsHeight, Nat.max_zero, Nat.add_le_add_iff_right, Expression.tree]
    exact p.height_le_iff limit
  | .mk p (c :: calls), limit + 1 => by
    rw [Expression.height, Nat.add_le_add_iff_right, Nat.max_le, p.height_le_iff limit,
      callsHeight_le_iff (c :: calls) limit, Expression.tree, nestsWithin_calls_iff]

/-- A primary expression is read by the rule of the expression that it starts. -/
theorem Primary.height_le_iff : (p : Primary) → (limit : Nat) →
    (p.height ≤ limit ↔ (expr p.tree).NestsWithin (limit + 1))
  | .atom t a, limit => by
    rw [Primary.height, Primary.tree, nestsWithin_succ_iff]
    exact ⟨fun _ => List.forall_mem_nil _, fun _ => Nat.zero_le limit⟩
  | .function opening params closing arrow body, limit => by
    rw [Primary.height, Primary.tree, nestsWithin_succ_iff, children, List.forall_mem_singleton]
    exact body.height_le_iff limit

theorem callsHeight_le_iff : (calls : List (Call Expression)) → (limit : Nat) →
    (callsHeight calls ≤ limit ↔
      ∀ list ∈ callsTree calls, ∀ x ∈ list.items, (expr x).NestsWithin limit)
  | [], limit => ⟨fun _ => List.forall_mem_nil _, fun _ => Nat.zero_le limit⟩
  | ⟨opening, items, closing⟩ :: calls, limit => by
    rw [callsHeight, Nat.max_le, callsTree, List.forall_mem_cons, itemsHeight_le_iff items limit,
      callsHeight_le_iff calls limit]

theorem itemsHeight_le_iff : (xs : List Expression) → (limit : Nat) →
    (itemsHeight xs ≤ limit ↔ ∀ x ∈ itemsTree xs, (expr x).NestsWithin limit)
  | [], limit => ⟨fun _ => List.forall_mem_nil _, fun _ => Nat.zero_le limit⟩
  | x :: xs, limit => by
    rw [itemsHeight, Nat.max_le, itemsTree, List.forall_mem_cons, x.height_le_iff limit,
      itemsHeight_le_iff xs limit]

end

mutual

/-- **The height of a derivation is the most rules that are open at a part of its tree.** -/
theorem Program.height_le_iff : (d : Program) → (limit : Nat) →
    (d.height ≤ limit ↔ (scope d.tree).NestsWithin limit)
  | .mk clauses result, 0 => by
    rw [Program.height]
    exact ⟨fun h => absurd h (Nat.not_succ_le_zero _), fun h => absurd h not_nestsWithin_zero⟩
  | .mk clauses result, limit + 1 => by
    rw [Program.height, Nat.add_le_add_iff_right, Nat.max_le, clausesHeight_le_iff clauses limit,
      result.height_le_iff limit, Program.tree, nestsWithin_succ_iff, children,
      List.forall_mem_append, List.forall_mem_map, List.forall_mem_singleton]
    exact Iff.rfl

theorem clausesHeight_le_iff : (cs : List (Clause Program)) → (limit : Nat) →
    (clausesHeight cs ≤ limit ↔ ∀ d ∈ clausesTree cs, (scope d.body).NestsWithin limit)
  | [], limit => ⟨fun _ => List.forall_mem_nil _, fun _ => Nat.zero_le limit⟩
  | ⟨keyword, name, colon, body⟩ :: cs, limit => by
    rw [clausesHeight, Nat.max_le, clausesTree, List.forall_mem_cons, body.height_le_iff limit,
      clausesHeight_le_iff cs limit]

end

end Grammar

open Grammar

/-! ### Reading -/

/-- **A program is read with as many levels as rules are open at its deepest part**, and with
more, but not with less. -/
theorem reads_program_iff {source : Text} {program : Scope}
    (h : Scope.ofText source = .ok program) : ∃ ts, source.tokens? = .ok ts ∧ ∀ levels,
      ((∃ rest, (Rule.scope levels).Reads ts program rest) ↔
        (Node.scope program).NestsWithin levels) := by
  obtain ⟨d, last, htokens, -, hd, -, rfl⟩ := Scope.ofText_eq_ok_iff.1 h
  refine ⟨_, htokens, fun levels => ?_⟩
  rw [← d.height_le_iff levels]
  constructor
  · rintro ⟨rest, hread⟩
    obtain ⟨d', -, -, hheight, htree⟩ := (readsPrograms_scope levels _ _ _).1 hread
    rw [d.height_le_iff, ← htree, ← d'.height_le_iff]
    exact hheight
  · intro hheight
    exact ⟨[last], (readsPrograms_scope levels _ _ _).2 ⟨d, rfl, hd, hheight, rfl⟩⟩

/-- In the tree of a text no more than `nestingLimit` rules are open anywhere. -/
theorem Scope.nestsWithin_of_ofText {source : Text} {program : Scope}
    (h : Scope.ofText source = .ok program) : (Node.scope program).NestsWithin nestingLimit := by
  obtain ⟨d, last, -, -, -, hheight, rfl⟩ := Scope.ofText_eq_ok_iff.1 h
  exact (d.height_le_iff nestingLimit).1 hheight

/-- Where a part of the tree of a text is read, a certain number of rules is open. -/
theorem Scope.existsUnique_open {source : Text} {program : Scope}
    (h : Scope.ofText source = .ok program) {n : Node} (hn : n.In program) :
    ∃! k, (Node.scope program).Open k n := by
  obtain ⟨k, hk⟩ := Node.Open.exists_of_reaches hn
  exact ⟨k, hk, fun k' hk' => hk'.unique hk fun n hn => Node.In.formed h hn⟩

end DrawLang
