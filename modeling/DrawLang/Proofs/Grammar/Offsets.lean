/-
DrawLang/Proofs/Grammar/Offsets.lean

Where the parts of a tree start.  All that can be blamed in a tree starts with a
token, so a tree is placed wherever the tokens of its derivation are
(`Program.placed_tree`).
-/
import DrawLang.Proofs.Grammar.Acceptance
import DrawLang.Proofs.Tree.Placed

namespace DrawLang.Grammar

variable {P : Text → Nat → Prop} {source : Text}

mutual

theorem Expression.placed_tree : (x : Expression) → (∀ t ∈ x.tokens, P source t.offset) →
    x.tree.Placed P source
  | .mk p [], h => by
    rw [Expression.tokens, List.forall_mem_append] at h
    rw [Expression.tree]
    exact p.placed_tree h.1
  | .mk p (c :: calls), h => by
    rw [Expression.tokens, List.forall_mem_append] at h
    have hp := p.placed_tree h.1
    have hstart := hp.start
    rw [p.span_tree] at hstart
    rw [Expression.tree]
    exact .calls hstart hp (placed_callsTree (c :: calls) h.2)

theorem Primary.placed_tree : (p : Primary) → (∀ t ∈ p.tokens, P source t.offset) →
    p.tree.Placed P source
  | .atom t a, h => by
    rw [Primary.tokens, List.forall_mem_singleton] at h
    rw [Primary.tree]
    exact .atom h
  | .function opening params closing arrow body, h => by
    simp only [Primary.tokens, List.forall_mem_append, List.forall_mem_cons] at h
    rw [Primary.tree]
    exact .function h.1.1.1 (body.placed_tree h.2)

theorem placed_callsTree : (calls : List (Call Expression)) →
    (∀ t ∈ callsTokens calls, P source t.offset) →
      ∀ list ∈ callsTree calls, ∀ x ∈ list.items, x.Placed P source
  | [], h => by
    rw [callsTree]
    exact nofun
  | ⟨opening, items, closing⟩ :: calls, h => by
    simp only [callsTokens, List.forall_mem_append, List.forall_mem_cons] at h
    rw [callsTree, List.forall_mem_cons]
    exact ⟨placed_itemsTree items h.1.2, placed_callsTree calls h.2.2⟩

theorem placed_itemsTree : (xs : List Expression) → (∀ t ∈ itemsTokens xs, P source t.offset) →
    ∀ x ∈ itemsTree xs, x.Placed P source
  | [], h => by
    rw [itemsTree]
    exact nofun
  | x :: xs, h => by
    rw [itemsTokens, List.forall_mem_append] at h
    rw [itemsTree, List.forall_mem_cons]
    exact ⟨x.placed_tree h.1, placed_itemsTree xs h.2⟩

end

mutual

/-- **The tree of a scope is placed where its tokens are.** -/
theorem Program.placed_tree : (d : Program) → (∀ t ∈ d.tokens, P source t.offset) →
    d.tree.Placed P source
  | .mk clauses result, h => by
    rw [Program.tokens, List.forall_mem_append] at h
    have hresult := result.placed_tree h.2
    have hclauses := placed_clausesTree clauses h.1
    rw [Program.tree]
    refine .mk ?_ (fun d hd => (hclauses d hd).1) (fun d hd => (hclauses d hd).2.1)
      (fun d hd => (hclauses d hd).2.2) hresult
    -- a scope starts with its first definition, if there is one
    rcases clauses with - | ⟨⟨keyword, name, colon, body⟩, clauses⟩
    · have hstart := hresult.start
      rw [result.span_tree] at hstart
      exact hstart
    · simp only [clausesTokens, List.forall_mem_append, List.forall_mem_cons] at h
      exact h.1.1.1.1

theorem placed_clausesTree : (clauses : List (Clause Program)) →
    (∀ t ∈ clausesTokens clauses, P source t.offset) →
      ∀ d ∈ clausesTree clauses, P source d.span.start ∧ P source d.nameSpan.start ∧
        d.body.Placed P source
  | [], h => by
    rw [clausesTree]
    exact nofun
  | ⟨keyword, name, colon, body⟩ :: clauses, h => by
    simp only [clausesTokens, List.forall_mem_append, List.forall_mem_cons] at h
    rw [clausesTree, List.forall_mem_cons]
    exact ⟨⟨h.1.1.1, h.1.1.2.1, body.placed_tree h.1.2⟩, placed_clausesTree clauses h.2⟩

end

end DrawLang.Grammar
