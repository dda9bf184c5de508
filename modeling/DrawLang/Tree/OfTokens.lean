/-
DrawLang/Tree/OfTokens.lean

Reading the tree of a program from its tokens.

    program     →  scope, end of input
    scope       →  definition*  expression
    definition  →  "def"  name  ":"?  scope
    expression  →  primary  arguments*
    arguments   →  "("  expression*  ")"
    primary     →  literal  |  built-in  |  name  |  function
    function    →  "("  name*  ")"  "->"?  expression

An opening parenthesis that touches the expression before it starts an
argument list; any other one starts a function literal.

A rule takes the tokens that are left and yields a value and the tokens behind
it, of which there are fewer; this is part of its result, so the loops end by
the number of tokens.  Scopes and expressions nest at most `nestingLimit`
levels deep: the rules for them count down the levels that are left, and each
rule takes the one for the next level as a parameter.

Where no rule goes on, the report keeps the tokens from there on, and the
constructs that would have been accepted.
-/
import DrawLang.Token.Scan
import DrawLang.Tree.Basic

namespace DrawLang

/-! ### Reports -/

/-- Why reading the tokens could not go on. -/
inductive Obstacle where
  /-- None of these constructs is next. -/
  | missing (constructs : List Construct)
  /-- The next scope or expression is nested too deeply. -/
  | tooDeep
  deriving DecidableEq, Repr

/-- Where reading the tokens could not go on, and why. -/
structure Dead where
  rest : List Token
  obstacle : Obstacle

namespace Dead

/-- What a message calls the next token. -/
def got (d : Dead) : Text :=
  match d.rest with
  | [] => Construct.endOfInput.text
  | t :: _ => if t.kind = .endOfInput then Construct.endOfInput.text else t.lexeme

/-- The offset of the next token; without any, that of the end of the text. -/
def offset (d : Dead) (source : Text) : Nat :=
  match d.rest with
  | [] => source.bytes
  | t :: _ => t.offset

/-- The report as a mismatch. -/
def mismatch (d : Dead) (source : Text) : Mismatch :=
  match d.obstacle with
  | .missing constructs => ⟨d.offset source, .construct constructs, d.got⟩
  | .tooDeep => ⟨d.offset source, .levels .parse nestingLimit, "deeper nesting".toList⟩

end Dead

/-! ### Rules -/

/-- A value read from the front of some tokens, and the fewer tokens behind it. -/
structure Parsed (ts : List Token) (α : Type) where
  value : α
  rest : List Token
  shorter : rest.length < ts.length

/-- Values read one after another, and the tokens behind them. -/
structure ParsedMany (ts : List Token) (α : Type) where
  values : List α
  rest : List Token
  noLonger : rest.length ≤ ts.length

/-- A rule of the grammar. -/
abbrev Rule (α : Type) := (ts : List Token) → Except Dead (Parsed ts α)

namespace Token

/-- The expression that a token is, if it is one by itself. -/
def atom? (t : Token) : Option Atom :=
  match t.kind with
  | .number value => some (.number value)
  | .string value => some (.string value)
  | .color value => some (.color value)
  | .builtin value => some (.builtin value)
  | .identifier => some (.name t.lexeme)
  | _ => none

/-- Can an expression start with this token? -/
def startsExpression (t : Token) : Bool := t.atom?.isSome || t.kind = .openParen

/-- The bytes of a token. -/
def span (t : Token) : Span := ⟨t.offset, t.stop⟩

end Token

namespace Rule

/-- Pass over a token of the given kind if it is next. -/
def skip (kind : TokenKind) : List Token → List Token
  | t :: ts => if t.kind = kind then ts else t :: ts
  | [] => []

theorem length_skip_le (kind : TokenKind) (ts : List Token) :
    (skip kind ts).length ≤ ts.length := by
  unfold skip
  repeat' split
  all_goals simp

/-- Expressions, as long as one can start. -/
def expressions (expression : Rule Expr) (ts : List Token) : Except Dead (ParsedMany ts Expr) :=
  match ts with
  | [] => .ok ⟨[], [], Nat.le_refl _⟩
  | t :: us =>
    if t.startsExpression then
      match expression (t :: us) with
      | .error d => .error d
      | .ok ⟨e, rest, h⟩ =>
        match expressions expression rest with
        | .error d => .error d
        | .ok ⟨es, rest', h'⟩ => .ok ⟨e :: es, rest', by omega⟩
    else .ok ⟨[], t :: us, Nat.le_refl _⟩
termination_by ts.length
decreasing_by exact h

/-- Argument lists, each touching what is before it; the first one at `stop`. -/
def argumentLists (expression : Rule Expr) (stop : Nat) (ts : List Token) :
    Except Dead (ParsedMany ts (Arguments Expr)) :=
  match ts with
  | [] => .ok ⟨[], [], Nat.le_refl _⟩
  | t :: us =>
    if t.kind = .openParen ∧ t.offset = stop then
      match expressions expression us with
      | .error d => .error d
      | .ok ⟨items, [], _⟩ => .error ⟨[], .missing [.expression, .closeParen]⟩
      | .ok ⟨items, u :: rest, h⟩ =>
        if u.kind = .closeParen then
          match argumentLists expression u.stop rest with
          | .error d => .error d
          | .ok ⟨lists, rest', h'⟩ =>
            .ok ⟨⟨items, ⟨t.offset, u.stop⟩⟩ :: lists, rest', by
              simp only [List.length_cons] at h ⊢
              omega⟩
        else .error ⟨u :: rest, .missing [.expression, .closeParen]⟩
    else .ok ⟨[], t :: us, Nat.le_refl _⟩
termination_by ts.length
decreasing_by
  simp only [List.length_cons] at h ⊢
  omega

/-- The parameters of a function literal. -/
def params : (ts : List Token) → ParsedMany ts Param
  | [] => ⟨[], [], Nat.le_refl _⟩
  | t :: ts =>
    if t.kind = .identifier then
      let ⟨ps, rest, h⟩ := params ts
      ⟨⟨t.lexeme, t.span⟩ :: ps, rest, by
        simp only [List.length_cons]
        omega⟩
    else ⟨[], t :: ts, Nat.le_refl _⟩

/-- A function literal behind its opening parenthesis, which starts at `start`. -/
def function (expression : Rule Expr) (start : Nat) : Rule Expr := fun ts =>
  match params ts with
  | ⟨_, [], _⟩ => .error ⟨[], .missing [.identifier, .closeParen]⟩
  | ⟨ps, t :: us, h⟩ =>
    if t.kind = .closeParen then
      match expression (skip .arrow us) with
      | .error d => .error d
      | .ok ⟨body, rest, h'⟩ =>
        .ok ⟨.function ps body ⟨start, body.span.stop⟩, rest, by
          have := length_skip_le .arrow us
          simp only [List.length_cons] at h
          omega⟩
    else .error ⟨t :: us, .missing [.identifier, .closeParen]⟩

/-- An atom or a function literal. -/
def primary (expression : Rule Expr) : Rule Expr
  | [] => .error ⟨[], .missing [.expression]⟩
  | t :: ts =>
    match t.atom? with
    | some a => .ok ⟨.atom a t.span, ts, Nat.lt_succ_self _⟩
    | none =>
      if t.kind = .openParen then
        match function expression t.offset ts with
        | .error d => .error d
        | .ok ⟨e, rest, h⟩ => .ok ⟨e, rest, Nat.lt_succ_of_lt h⟩
      else .error ⟨t :: ts, .missing [.expression]⟩

/-- An expression with the given argument lists behind it. -/
def applied (callee : Expr) (lists : List (Arguments Expr)) : Expr :=
  match lists.getLast? with
  | none => callee
  | some last => .calls callee lists (callee.span.upTo last.span)

/-- A primary expression and its argument lists. -/
def callChain (expression : Rule Expr) : Rule Expr := fun ts =>
  match primary expression ts with
  | .error d => .error d
  | .ok ⟨callee, rest, h⟩ =>
    match argumentLists expression callee.span.stop rest with
    | .error d => .error d
    | .ok ⟨lists, rest', h'⟩ => .ok ⟨applied callee lists, rest', by omega⟩

/-- Run a rule one level deeper, if there is a level left. -/
def nested {α : Type} (deeper : Option (Rule α)) : Rule α := fun ts =>
  match deeper with
  | none => .error ⟨ts, .tooDeep⟩
  | some rule => rule ts

/-- An expression with the given number of levels left. -/
def expression : Nat → Rule Expr
  | 0 => nested none
  | levels + 1 => nested (some (callChain (expression levels)))

/-- Definitions, as long as there is a keyword. -/
def definitions (scope : Rule Scope) (ts : List Token) :
    Except Dead (ParsedMany ts (Definition Scope)) :=
  match ts with
  | [] => .ok ⟨[], [], Nat.le_refl _⟩
  | t :: us =>
    if t.kind = .define then
      match us with
      | [] => .error ⟨[], .missing [.identifier]⟩
      | u :: vs =>
        if u.kind = .identifier then
          match scope (skip .colon vs) with
          | .error d => .error d
          | .ok ⟨body, rest, h⟩ =>
            have := length_skip_le .colon vs
            match definitions scope rest with
            | .error d => .error d
            | .ok ⟨ds, rest', h'⟩ =>
              .ok ⟨⟨u.lexeme, u.span, body, ⟨t.offset, body.span.stop⟩⟩ :: ds, rest', by
                simp only [List.length_cons]
                omega⟩
        else .error ⟨u :: vs, .missing [.identifier]⟩
    else .ok ⟨[], t :: us, Nat.le_refl _⟩
termination_by ts.length
decreasing_by
  simp only [List.length_cons]
  omega

/-- The scope of some definitions and a result. -/
def scopeOf (ds : List (Definition Scope)) (result : Expr) : Scope :=
  ⟨ds, result, ⟨(ds.head?.map fun d => d.span.start).getD result.span.start, result.span.stop⟩⟩

/-- Definitions and the expression behind them. -/
def body (scope : Rule Scope) (expression : Rule Expr) : Rule Scope := fun ts =>
  match definitions scope ts with
  | .error d => .error d
  | .ok ⟨_, [], _⟩ => .error ⟨[], .missing [.definition, .expression]⟩
  | .ok ⟨ds, t :: us, h⟩ =>
    if t.startsExpression then
      match expression (t :: us) with
      | .error d => .error d
      | .ok ⟨result, rest, h'⟩ => .ok ⟨scopeOf ds result, rest, by omega⟩
    else .error ⟨t :: us, .missing [.definition, .expression]⟩

/-- A scope with the given number of levels left. -/
def scope : Nat → Rule Scope
  | 0 => nested none
  | levels + 1 => nested (some (body (scope levels) (expression levels)))

end Rule

/-! ### Programs -/

/-- The tree of a program, read from its tokens up to the end of input. -/
def Scope.ofTokens (ts : List Token) : Except Dead Scope :=
  match Rule.scope nestingLimit ts with
  | .error d => .error d
  | .ok ⟨s, [], _⟩ => .ok s
  | .ok ⟨s, t :: us, _⟩ =>
    if t.kind = .endOfInput then .ok s
    else .error ⟨t :: us, .missing [.definition, .endOfInput]⟩

/-- The tree of a program text.  A report about its characters comes before
any about its tokens. -/
def Scope.ofText (source : Text) : Except Mismatch Scope :=
  match source.tokens? with
  | .error m => .error m
  | .ok ts => (Scope.ofTokens ts).mapError (·.mismatch source)

end DrawLang
