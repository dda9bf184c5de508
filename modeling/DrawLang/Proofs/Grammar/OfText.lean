/-
DrawLang/Proofs/Grammar/OfText.lean

The trees of texts.  A text has a tree exactly if its tokens, the end of input
aside, have a derivation that is not too high (`Scope.ofText_eq_ok_iff`).  All
that is in the tree starts at marked offsets, and where a text has no tree the
report is at one too (`Scope.placed_of_ofText`, `Scope.marked_of_ofText`).
-/
import DrawLang.Proofs.Grammar.Offsets
import DrawLang.Proofs.Grammar.Passing
import DrawLang.Proofs.Token.Marked

namespace DrawLang

/-! ### Tokens -/

namespace Text

variable {source : Text} {ts : List Token}

theorem mem_tokens_of_tokens? (h : source.tokens? = .ok ts) {t : Token} (ht : t ∈ ts) :
    t ∈ source.tokens := by
  refine mem_tokens_iff.2 ?_
  rw [mapM_scanned_eq_ok h]
  exact List.mem_map_of_mem ht

theorem tokens_eq_of_tokens? (h : source.tokens? = .ok ts) : source.tokens = ts := by
  rw [tokens, mapM_scanned_eq_ok h, List.filterMap_map]
  exact List.filterMap_some

theorem marked_of_tokens? (h : source.tokens? = .ok ts) {t : Token} (ht : t ∈ ts) :
    source.Marked t.offset :=
  .token (mem_tokens_of_tokens? h ht)

/-- What is left behind some of the tokens of a text starts with one of them. -/
theorem exists_token_of_passes (h : source.tokens? = .ok ts) {rest : List Token}
    (hrest : Passes ts rest) : ∃ t us, rest = t :: us ∧ t ∈ ts := by
  obtain ⟨us, last, rfl, -, -, hlast, -⟩ := exists_row_of_tokens? h
  exact Grammar.exists_token_of_passes hrest (List.mem_append_right us List.mem_cons_self) hlast

end Text

/-! ### Trees -/

namespace Scope

variable {source : Text}

/-- **A text has the trees of the derivations of its tokens**, if they are not too high. -/
theorem ofText_eq_ok_iff {program : Scope} :
    ofText source = .ok program ↔
      ∃ (d : Grammar.Program) (last : Token), source.tokens? = .ok (d.tokens ++ [last]) ∧
        last.kind = .endOfInput ∧ d.Derives [last] ∧ d.height ≤ nestingLimit ∧
          d.tree = program := by
  constructor
  · intro h
    unfold ofText at h
    split at h
    · cases h
    · rename_i ts htokens
      rcases e : ofTokens ts with d | s <;> rw [e] at h
      · cases h
      · cases h
        obtain ⟨us, last, rfl, -, hus, hlast, -⟩ := Text.exists_row_of_tokens? htokens
        obtain ⟨d, rfl, hd, hheight, htree⟩ := (Grammar.ofTokens_eq_ok_iff hus hlast).1 e
        exact ⟨d, last, htokens, hlast, hd, hheight, htree⟩
  · rintro ⟨d, last, htokens, hlast, hd, hheight, htree⟩
    have hread := (Grammar.ofTokens_eq_ok_iff (d.tokens_ne_end hd) hlast).2
      ⟨d, rfl, hd, hheight, htree⟩
    rw [ofText, htokens]
    exact congrArg (Except.mapError _) hread

/-- **In the tree of a text everything starts at marked offsets.** -/
theorem placed_of_ofText {P : Text → Nat → Prop}
    (hP : ∀ offset, source.Marked offset → P source offset) {program : Scope}
    (h : ofText source = .ok program) : program.Placed P source := by
  obtain ⟨d, last, htokens, -, -, -, rfl⟩ := ofText_eq_ok_iff.1 h
  refine d.placed_tree fun t ht => hP t.offset ?_
  exact Text.marked_of_tokens? htokens (List.mem_append_left _ ht)

end Scope

/-! ### Reports -/

theorem Dead.offset_mismatch (d : Dead) (source : Text) :
    (d.mismatch source).offset = d.offset source := by
  unfold Dead.mismatch
  split <;> rfl

/-- **Where a text has no tree the report is at a marked offset.** -/
theorem Scope.marked_of_ofText {source : Text} {r : Mismatch}
    (h : ofText source = .error r) : source.Marked r.offset := by
  unfold ofText at h
  split at h
  · rename_i r' htokens
    cases h
    exact Text.marked_of_scan (Text.mem_of_mapM_scanned_eq_error htokens)
  · rename_i ts htokens
    rcases e : ofTokens ts with d | s <;> rw [e] at h
    · cases h
      obtain ⟨t, us, hrest, ht⟩ :=
        Text.exists_token_of_passes htokens (Grammar.passes_of_ofTokens e)
      rw [d.offset_mismatch, Dead.offset, hrest]
      exact Text.marked_of_tokens? htokens ht
    · cases h

theorem Dead.kind_mismatch (d : Dead) (source : Text) :
    (d.mismatch source).wanted.kind = .parse := by
  unfold Dead.mismatch
  split <;> rfl

/-- **Where a text has no tree, its form is what is wrong**, too deep nesting included. -/
theorem Scope.kind_of_ofText {source : Text} {r : Mismatch} (h : ofText source = .error r) :
    r.wanted.kind = .parse := by
  unfold ofText at h
  split at h
  · rename_i r' htokens
    cases h
    exact Text.kind_of_scan (Text.mem_of_mapM_scanned_eq_error htokens)
  · rename_i ts htokens
    rcases e : ofTokens ts with d | s <;> rw [e] at h
    · cases h
      exact d.kind_mismatch source
    · cases h

end DrawLang
