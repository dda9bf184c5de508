/-
DrawLang/Proofs/Grammar/Printed.lean

Texts whose trees are printed the same.  A token of a text is spelled as its kind is, so
the tree of a derivation can be written wherever its numbers are finite
(`Program.writable_tree`).  Texts whose numbers are finite hence have trees that are
alike if they are printed the same (`printed_trees_are_unambiguous`).
-/
import DrawLang.Proofs.Grammar.OfText
import DrawLang.Proofs.Token.Tiling
import DrawLang.Proofs.Tree.Printed

namespace DrawLang

/-! ### Tokens -/

/-- A token that stands for a number stands for a finite one. -/
def TokenKind.IsFinite : TokenKind → Prop
  | number n => n.IsFinite
  | _ => True

instance : (k : TokenKind) → Decidable k.IsFinite
  | .number n => inferInstanceAs (Decidable n.IsFinite)
  | .openParen | .closeParen | .colon | .arrow | .define | .identifier | .color _ | .builtin _
  | .string _ | .endOfInput => isTrue trivial

/-- The token is spelled as its kind is, and a number is finite. -/
def Token.Writable (t : Token) : Prop := Spells t.kind t.lexeme ∧ t.kind.IsFinite

namespace Token.Writable

variable {t : Token}

theorem word (h : t.Writable) (hkind : t.kind = .identifier) :
    Text.IsWord t.lexeme ∧ TokenKind.ofWord t.lexeme = .identifier := by
  have hspells := h.1
  rw [hkind] at hspells
  cases hspells with
  | keyword h => exact (TokenKind.isKeyword_of_mem h).elim
  | identifier h hw => exact ⟨h, TokenKind.ofWord_of_not_keyword hw⟩

/-- The atom that a token is can be written. -/
theorem atom (h : t.Writable) {a : Atom} (hatom : t.atom? = some a) : a.Writable := by
  unfold atom? at hatom
  split at hatom
  case h_1 n hkind =>
    have hfinite := h.2
    rw [hkind] at hfinite
    exact Option.some.inj hatom ▸ .number hfinite
  case h_2 v _ => exact Option.some.inj hatom ▸ .string v
  case h_3 c _ =>
    exact Option.some.inj hatom ▸
      .word (isWord_of_keyword c.keyword) (TokenKind.ofWord_of_keyword c.keyword)
  case h_4 b _ =>
    exact Option.some.inj hatom ▸
      .word (isWord_of_keyword b.keyword) (TokenKind.ofWord_of_keyword b.keyword)
  case h_5 hkind =>
    obtain ⟨hword, hname⟩ := h.word hkind
    exact Option.some.inj hatom ▸ .word hword hname
  case h_6 => cases hatom

end Token.Writable

/-! ### Derivations -/

namespace Grammar

mutual

theorem Expression.writable_tree {rest : List Token} : (x : Expression) → x.Derives rest →
    (∀ t ∈ x.tokens, t.Writable) → x.tree.Writable
  | .mk p [], hd, h => by
    rw [Expression.Derives] at hd
    rw [Expression.tokens, List.forall_mem_append] at h
    rw [Expression.tree]
    exact p.writable_tree hd.1 h.1
  | .mk p (c :: calls), hd, h => by
    rw [Expression.Derives] at hd
    rw [Expression.tokens, List.forall_mem_append] at h
    rw [Expression.tree]
    exact .calls (p.writable_tree hd.1 h.1) (writable_callsTree (c :: calls) hd.2 h.2) _

theorem Primary.writable_tree {rest : List Token} : (p : Primary) → p.Derives rest →
    (∀ t ∈ p.tokens, t.Writable) → p.tree.Writable
  | .atom t a, hd, h => by
    rw [Primary.Derives] at hd
    rw [Primary.tokens, List.forall_mem_singleton] at h
    rw [Primary.tree]
    exact .atom (h.atom hd) _
  | .function opening params closing arrow body, hd, h => by
    rw [Primary.Derives] at hd
    obtain ⟨-, hparams, -, -, hbody⟩ := hd
    simp only [Primary.tokens, List.forall_mem_append, List.forall_mem_cons] at h
    rw [Primary.tree]
    refine .function (List.forall_mem_map.2 fun t ht => ?_) (body.writable_tree hbody h.2) _
    exact ((h.1.1.2 t ht).word (hparams t ht)).1

theorem writable_callsTree {rest : List Token} {stop : Nat} :
    (calls : List (Call Expression)) → CallsDerive rest stop calls →
      (∀ t ∈ callsTokens calls, t.Writable) →
        ∀ list ∈ callsTree calls, ∀ x ∈ list.items, x.Writable
  | [], _, _ => by
    rw [callsTree]
    exact nofun
  | ⟨opening, items, closing⟩ :: calls, hd, h => by
    rw [CallsDerive] at hd
    obtain ⟨-, -, hitems, -, hcalls⟩ := hd
    simp only [callsTokens, List.forall_mem_append, List.forall_mem_cons] at h
    rw [callsTree, List.forall_mem_cons]
    exact ⟨writable_itemsTree items hitems h.1.2, writable_callsTree calls hcalls h.2.2⟩

theorem writable_itemsTree {rest : List Token} : (xs : List Expression) → ItemsDerive rest xs →
    (∀ t ∈ itemsTokens xs, t.Writable) → ∀ x ∈ itemsTree xs, x.Writable
  | [], _, _ => by
    rw [itemsTree]
    exact nofun
  | x :: xs, hd, h => by
    rw [ItemsDerive] at hd
    rw [itemsTokens, List.forall_mem_append] at h
    rw [itemsTree, List.forall_mem_cons]
    exact ⟨x.writable_tree hd.1 h.1, writable_itemsTree xs hd.2 h.2⟩

end

mutual

/-- **The tree of a scope can be written where its tokens can.** -/
theorem Program.writable_tree {rest : List Token} : (d : Program) → d.Derives rest →
    (∀ t ∈ d.tokens, t.Writable) → d.tree.Writable
  | .mk clauses result, hd, h => by
    rw [Program.Derives] at hd
    rw [Program.tokens, List.forall_mem_append] at h
    have hclauses := writable_clausesTree clauses hd.1 h.1
    rw [Program.tree]
    exact .mk (fun d hd => (hclauses d hd).1) (fun d hd => (hclauses d hd).2)
      (result.writable_tree hd.2 h.2) _

theorem writable_clausesTree {rest : List Token} : (clauses : List (Clause Program)) →
    ClausesDerive rest clauses → (∀ t ∈ clausesTokens clauses, t.Writable) →
      ∀ d ∈ clausesTree clauses, Text.IsWord d.name ∧ d.body.Writable
  | [], _, _ => by
    rw [clausesTree]
    exact nofun
  | ⟨keyword, name, colon, body⟩ :: clauses, hd, h => by
    rw [ClausesDerive] at hd
    obtain ⟨-, hname, -, hbody, hclauses⟩ := hd
    simp only [clausesTokens, List.forall_mem_append, List.forall_mem_cons] at h
    rw [clausesTree, List.forall_mem_cons]
    exact ⟨⟨(h.1.1.2.1.word hname).1, body.writable_tree hbody h.1.2⟩,
      writable_clausesTree clauses hclauses h.2⟩

end

end Grammar

/-! ### Texts -/

/-- Trees of texts can be written, unless a number in the text is too large. -/
theorem Scope.writable_of_ofText {source : Text} {program : Scope}
    (h : ofText source = .ok program)
    (hfinite : ∀ t ∈ source.tokens, t.kind.IsFinite) : program.Writable := by
  obtain ⟨d, last, htokens, -, hd, -, rfl⟩ := ofText_eq_ok_iff.1 h
  refine d.writable_tree hd fun t ht => ?_
  have hmem := Text.mem_tokens_of_tokens? htokens (List.mem_append_left [last] ht)
  exact ⟨(Text.longest_of_mem_tokens hmem (d.tokens_ne_end hd t ht)).1, hfinite t hmem⟩

/-- **Printed trees are unambiguous**: where all numbers are finite, texts whose trees are
printed the same have the same tree up to spans and up to the two zeros. -/
theorem printed_trees_are_unambiguous {source source' : Text} {program program' : Scope}
    (h : Scope.ofText source = .ok program) (h' : Scope.ofText source' = .ok program')
    (hfinite : ∀ t ∈ source.tokens, t.kind.IsFinite)
    (hfinite' : ∀ t ∈ source'.tokens, t.kind.IsFinite)
    (hprinted : program.printed = program'.printed) : program.Alike program' := by
  have hend : Text.Ends [] := nofun
  have hsame : program.printed ++ [] = program'.printed ++ [] := congrArg (· ++ []) hprinted
  exact (Scope.printed_tells (Scope.writable_of_ofText h hfinite)
    (Scope.writable_of_ofText h' hfinite') hend hend hsame).1

/-- The derivation of a definition of `prog` and a call of `fn` at `start`, with `call`, `prog`,
a string that holds quotes, parentheses and spaces, and a number. -/
def Grammar.Program.misleading (colon : Option Token) (one zero : Token) (n : Number)
    (start : Nat) : Grammar.Program :=
  .mk [⟨⟨.define, "def".toList, 0, 1⟩, ⟨.identifier, "prog".toList, 4, 1⟩, colon,
      .mk [] (.mk (.atom one (.number 1)) [])⟩]
    (.mk (.atom ⟨.identifier, "fn".toList, start, 1⟩ (.name "fn".toList))
      [⟨⟨.openParen, "(".toList, start + 2, 1⟩,
        [.mk (.atom ⟨.identifier, "call".toList, start + 3, 1⟩ (.name "call".toList)) [],
          .mk (.atom ⟨.identifier, "prog".toList, start + 8, 1⟩ (.name "prog".toList)) [],
          .mk (.atom ⟨.string "a) \" (".toList, "\"a) \"\" (\"".toList, start + 13, 1⟩
            (.string "a) \" (".toList)) [],
          .mk (.atom zero (.number n)) []],
        ⟨.closeParen, ")".toList, zero.stop, 1⟩⟩])

/-- Names like those of nodes and a string that looks like the end of one do not mislead, and
the two trees differ in their spans and their zeros only. -/
theorem printed_trees_are_unambiguous_misleading :
    ∃ program program', Scope.ofText "def prog 1 fn(call prog \"a) \"\" (\" -0)".toList =
        .ok program ∧
      Scope.ofText "def prog: 1.0 fn(call prog \"a) \"\" (\" 0)".toList = .ok program' ∧
      program.printed = "(prog (def prog (prog 1)) (call fn (call prog \"a) \"\" (\" 0)))".toList ∧
      program'.printed = program.printed ∧ program.Alike program' := by
  let one : Token := ⟨.number 1, "1".toList, 9, 1⟩
  let zero : Token := ⟨.number (-0), "-0".toList, 34, 1⟩
  let one' : Token := ⟨.number 1, "1.0".toList, 10, 1⟩
  let zero' : Token := ⟨.number 0, "0".toList, 37, 1⟩
  let d := Grammar.Program.misleading none one zero (-0) 11
  let d' := Grammar.Program.misleading (some ⟨.colon, ":".toList, 8, 1⟩) one' zero' 0 14
  have h : Scope.ofText "def prog 1 fn(call prog \"a) \"\" (\" -0)".toList = .ok d.tree :=
    Scope.ofText_eq_ok_iff.2 ⟨d, ⟨.endOfInput, [], 37, 1⟩, by decide +kernel, rfl,
      by decide +kernel, by decide +kernel, rfl⟩
  have h' : Scope.ofText "def prog: 1.0 fn(call prog \"a) \"\" (\" 0)".toList = .ok d'.tree :=
    Scope.ofText_eq_ok_iff.2 ⟨d', ⟨.endOfInput, [], 39, 1⟩, by decide +kernel, rfl,
      by decide +kernel, by decide +kernel, rfl⟩
  have hprinted : d.tree.printed =
      "(prog (def prog (prog 1)) (call fn (call prog \"a) \"\" (\" 0)))".toList := by
    decide +kernel
  have hprinted' : d'.tree.printed = d.tree.printed := by decide +kernel
  refine ⟨d.tree, d'.tree, h, h', hprinted, hprinted', ?_⟩
  exact printed_trees_are_unambiguous h h' (by decide +kernel) (by decide +kernel)
    hprinted'.symm

end DrawLang
