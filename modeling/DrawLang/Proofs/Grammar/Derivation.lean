/-
DrawLang/Proofs/Grammar/Derivation.lean

Derivations of the grammar

    program     →  scope, end of input
    scope       →  definition*  expression
    definition  →  "def"  name  ":"?  scope
    expression  →  primary  call*
    call        →  "("  expression*  ")"
    primary     →  literal  |  name  |  function
    function    →  "("  name*  ")"  "->"?  expression

as data.  A derivation holds the token of each terminal, optional ones included,
and a derivation for each nonterminal.  `tokens` is the row of tokens it derives,
`tree` the tree it describes, and `height` the length of the longest chain of
scopes and expressions in it.

Not all of this data is a derivation: `Derives rest` says that the terminals are
of the right kinds, and that each opening parenthesis is used as it has to be,
where `rest` is what follows.  A parenthesis that touches the expression before
it opens a call, so an expression cannot end in front of one, and a call must
open with one.
-/
import DrawLang.Tree.OfTokens

namespace DrawLang.Grammar

/-- A call: parentheses with expressions between them. -/
structure Call (α : Type) where
  opening : Token
  items : List α
  closing : Token

mutual

/-- A primary expression with calls behind it. -/
inductive Expression where
  | mk (primary : Primary) (calls : List (Call Expression))

/-- A literal or a name, or a function. -/
inductive Primary where
  | atom (token : Token) (atom : Atom)
  | function (opening : Token) (params : List Token) (closing : Token) (arrow : Option Token)
    (body : Expression)

end

/-- A definition with a body. -/
structure Clause (α : Type) where
  keyword : Token
  name : Token
  colon : Option Token
  body : α

/-- Definitions and the expression behind them. -/
inductive Program where
  | mk (clauses : List (Clause Program)) (result : Expression)

/-! ### The tokens of a derivation -/

mutual

/-- The tokens of an expression. -/
def Expression.tokens : Expression → List Token
  | .mk p calls => p.tokens ++ callsTokens calls

/-- The tokens of a primary expression. -/
def Primary.tokens : Primary → List Token
  | .atom t _ => [t]
  | .function opening params closing arrow body =>
    opening :: params ++ closing :: arrow.toList ++ body.tokens

/-- The tokens of some calls. -/
def callsTokens : List (Call Expression) → List Token
  | [] => []
  | ⟨opening, items, closing⟩ :: calls =>
    opening :: itemsTokens items ++ closing :: callsTokens calls

/-- The tokens of some expressions. -/
def itemsTokens : List Expression → List Token
  | [] => []
  | x :: xs => x.tokens ++ itemsTokens xs

end

mutual

/-- The tokens of a scope. -/
def Program.tokens : Program → List Token
  | .mk clauses result => clausesTokens clauses ++ result.tokens

/-- The tokens of some definitions. -/
def clausesTokens : List (Clause Program) → List Token
  | [] => []
  | ⟨keyword, name, colon, body⟩ :: clauses =>
    keyword :: name :: colon.toList ++ body.tokens ++ clausesTokens clauses

end

/-! ### Where a derivation starts and stops -/

/-- Where a primary expression starts. -/
def Primary.start : Primary → Nat
  | .atom t _ => t.offset
  | .function opening _ _ _ _ => opening.offset

/-- Where an expression starts. -/
def Expression.start : Expression → Nat
  | .mk p _ => p.start

/-- Where calls stop that are made behind `stop`. -/
def callsStop (stop : Nat) : List (Call Expression) → Nat
  | [] => stop
  | c :: calls => callsStop c.closing.stop calls

mutual

/-- Where an expression stops. -/
def Expression.stop : Expression → Nat
  | .mk p calls => callsStop p.stop calls

/-- Where a primary expression stops. -/
def Primary.stop : Primary → Nat
  | .atom t _ => t.stop
  | .function _ _ _ _ body => body.stop

end

/-! ### The tree that a derivation describes -/

mutual

/-- The tree of an expression; calls stand behind their callee. -/
def Expression.tree : Expression → Expr
  | .mk p [] => p.tree
  | .mk p (c :: calls) =>
    .calls p.tree (callsTree (c :: calls)) ⟨p.start, callsStop p.stop (c :: calls)⟩

/-- The tree of a primary expression. -/
def Primary.tree : Primary → Expr
  | .atom t a => .atom a t.span
  | .function opening params _ _ body =>
    .function (params.map fun t => ⟨t.lexeme, t.span⟩) body.tree ⟨opening.offset, body.stop⟩

/-- The argument lists of some calls. -/
def callsTree : List (Call Expression) → List (Arguments Expr)
  | [] => []
  | ⟨opening, items, closing⟩ :: calls =>
    ⟨itemsTree items, ⟨opening.offset, closing.stop⟩⟩ :: callsTree calls

/-- The trees of some expressions. -/
def itemsTree : List Expression → List Expr
  | [] => []
  | x :: xs => x.tree :: itemsTree xs

end

/-- Where a scope starts: with its first definition, if there is one. -/
def scopeStart (clauses : List (Clause Program)) (result : Expression) : Nat :=
  match clauses with
  | [] => result.start
  | c :: _ => c.keyword.offset

mutual

/-- Where a scope stops. -/
def Program.stop : Program → Nat
  | .mk _ result => result.stop

/-- The tree of a scope. -/
def Program.tree : Program → Scope
  | .mk clauses result =>
    ⟨clausesTree clauses, result.tree, ⟨scopeStart clauses result, result.stop⟩⟩

/-- The trees of some definitions. -/
def clausesTree : List (Clause Program) → List (Definition Scope)
  | [] => []
  | ⟨keyword, name, _, body⟩ :: clauses =>
    ⟨name.lexeme, name.span, body.tree, ⟨keyword.offset, body.stop⟩⟩ :: clausesTree clauses

end

/-! ### How deep a derivation nests -/

mutual

/-- The length of the longest chain of expressions from this one on. -/
def Expression.height : Expression → Nat
  | .mk p calls => max p.height (callsHeight calls) + 1

/-- The length of the longest chain of expressions in a primary expression. -/
def Primary.height : Primary → Nat
  | .atom _ _ => 0
  | .function _ _ _ _ body => body.height

/-- The length of the longest chain of expressions in some calls. -/
def callsHeight : List (Call Expression) → Nat
  | [] => 0
  | ⟨_, items, _⟩ :: calls => max (itemsHeight items) (callsHeight calls)

/-- The length of the longest chain of expressions in some of them. -/
def itemsHeight : List Expression → Nat
  | [] => 0
  | x :: xs => max x.height (itemsHeight xs)

end

mutual

/-- The length of the longest chain of scopes and expressions from this scope on. -/
def Program.height : Program → Nat
  | .mk clauses result => max (clausesHeight clauses) result.height + 1

/-- The length of the longest chain of scopes and expressions in some definitions. -/
def clausesHeight : List (Clause Program) → Nat
  | [] => 0
  | ⟨_, _, _, body⟩ :: clauses => max body.height (clausesHeight clauses)

end

/-! ### What makes it a derivation -/

/-- The next token is an opening parenthesis right at `stop`. -/
def Touches (stop : Nat) (rest : List Token) : Prop :=
  ∃ t us, rest = t :: us ∧ t.kind = .openParen ∧ t.offset = stop

mutual

/-- The expression is derived in front of `rest`. -/
def Expression.Derives (rest : List Token) : Expression → Prop
  | .mk p calls => p.Derives (callsTokens calls ++ rest) ∧ CallsDerive rest p.stop calls

/-- The primary expression is derived in front of `rest`. -/
def Primary.Derives (rest : List Token) : Primary → Prop
  | .atom t a => t.atom? = some a
  | .function opening params closing arrow body =>
    opening.kind = .openParen ∧ (∀ t ∈ params, t.kind = .identifier) ∧
      closing.kind = .closeParen ∧ (∀ t ∈ arrow, t.kind = .arrow) ∧ body.Derives rest

/-- The calls are derived behind an expression that stops at `stop`, and in
front of `rest`: each touches what is before it, and nothing touches the last. -/
def CallsDerive (rest : List Token) (stop : Nat) : List (Call Expression) → Prop
  | [] => ¬ Touches stop rest
  | ⟨opening, items, closing⟩ :: calls =>
    opening.kind = .openParen ∧ opening.offset = stop ∧
      ItemsDerive (closing :: callsTokens calls ++ rest) items ∧
        closing.kind = .closeParen ∧ CallsDerive rest closing.stop calls

/-- The expressions are derived in front of `rest`. -/
def ItemsDerive (rest : List Token) : List Expression → Prop
  | [] => True
  | x :: xs => x.Derives (itemsTokens xs ++ rest) ∧ ItemsDerive rest xs

end

mutual

/-- The scope is derived in front of `rest`. -/
def Program.Derives (rest : List Token) : Program → Prop
  | .mk clauses result => ClausesDerive (result.tokens ++ rest) clauses ∧ result.Derives rest

/-- The definitions are derived in front of `rest`. -/
def ClausesDerive (rest : List Token) : List (Clause Program) → Prop
  | [] => True
  | ⟨keyword, name, colon, body⟩ :: clauses =>
    keyword.kind = .define ∧ name.kind = .identifier ∧ (∀ t ∈ colon, t.kind = .colon) ∧
      body.Derives (clausesTokens clauses ++ rest) ∧ ClausesDerive rest clauses

end

/-! ### Checking a derivation -/

instance (stop : Nat) (rest : List Token) : Decidable (Touches stop rest) :=
  match rest with
  | [] => isFalse fun ⟨_, _, h, _⟩ => nomatch h
  | t :: us =>
    decidable_of_iff (t.kind = .openParen ∧ t.offset = stop)
      ⟨fun h => ⟨t, us, rfl, h⟩, fun ⟨_, _, h, ht⟩ => (List.cons.inj h).1 ▸ ht⟩

mutual

instance Expression.decidableDerives (rest : List Token) :
    (x : Expression) → Decidable (x.Derives rest)
  | .mk p calls =>
    letI := p.decidableDerives (callsTokens calls ++ rest)
    letI := decidableCallsDerive rest p.stop calls
    inferInstanceAs (Decidable (_ ∧ _))

instance Primary.decidableDerives (rest : List Token) : (p : Primary) → Decidable (p.Derives rest)
  | .atom t a => inferInstanceAs (Decidable (t.atom? = some a))
  | .function opening params closing arrow body =>
    letI := body.decidableDerives rest
    inferInstanceAs (Decidable (opening.kind = .openParen ∧ (∀ t ∈ params, t.kind = .identifier) ∧
      closing.kind = .closeParen ∧ (∀ t ∈ arrow, t.kind = .arrow) ∧ body.Derives rest))

instance decidableCallsDerive (rest : List Token) (stop : Nat) :
    (calls : List (Call Expression)) → Decidable (CallsDerive rest stop calls)
  | [] => inferInstanceAs (Decidable (¬ Touches stop rest))
  | ⟨opening, items, closing⟩ :: calls =>
    letI := decidableItemsDerive (closing :: callsTokens calls ++ rest) items
    letI := decidableCallsDerive rest closing.stop calls
    inferInstanceAs (Decidable (opening.kind = .openParen ∧ opening.offset = stop ∧
      ItemsDerive (closing :: callsTokens calls ++ rest) items ∧
        closing.kind = .closeParen ∧ CallsDerive rest closing.stop calls))

instance decidableItemsDerive (rest : List Token) :
    (xs : List Expression) → Decidable (ItemsDerive rest xs)
  | [] => inferInstanceAs (Decidable True)
  | x :: xs =>
    letI := x.decidableDerives (itemsTokens xs ++ rest)
    letI := decidableItemsDerive rest xs
    inferInstanceAs (Decidable (_ ∧ _))

end

mutual

instance Program.decidableDerives (rest : List Token) : (d : Program) → Decidable (d.Derives rest)
  | .mk clauses result =>
    letI := decidableClausesDerive (result.tokens ++ rest) clauses
    inferInstanceAs (Decidable (ClausesDerive (result.tokens ++ rest) clauses ∧
      result.Derives rest))

instance decidableClausesDerive (rest : List Token) :
    (clauses : List (Clause Program)) → Decidable (ClausesDerive rest clauses)
  | [] => inferInstanceAs (Decidable True)
  | ⟨keyword, name, colon, body⟩ :: clauses =>
    letI := body.decidableDerives (clausesTokens clauses ++ rest)
    letI := decidableClausesDerive rest clauses
    inferInstanceAs (Decidable (keyword.kind = .define ∧ name.kind = .identifier ∧
      (∀ t ∈ colon, t.kind = .colon) ∧ body.Derives (clausesTokens clauses ++ rest) ∧
        ClausesDerive rest clauses))

end

end DrawLang.Grammar
