/-
DrawLang/Proofs/Tree/Part.lean

The parts of a tree that have a text of their own: its scopes and its
expressions.  Each part can be read by itself as a scope; an expression then is
the result of one without definitions.

In its own text a part starts at zero, so its spans there are other ones.
`relocate` changes all spans of a tree, and can be undone if the change can
(`Scope.relocate_relocate`).  What is left without spans is the `bare` tree.
-/
import Mathlib.Logic.Relation
import DrawLang.Tree.Basic

namespace DrawLang

/-! ### Parts -/

/-- A part of a tree with a text of its own. -/
inductive Node where
  | scope (s : Scope)
  | expr (x : Expr)

namespace Node

/-- The span of a part. -/
def span : Node → Span
  | scope s => s.span
  | expr x => x.span

/-- The part as a scope by itself. -/
def alone : Node → Scope
  | scope s => s
  | expr x => ⟨[], x, x.span⟩

/-- The second part stands in the first one, and in none between them. -/
inductive Child : Node → Node → Prop
  | definition {s : Scope} {d : Definition Scope} (h : d ∈ s.definitions) :
    Child (scope s) (scope d.body)
  | result (s : Scope) : Child (scope s) (expr s.result)
  | function (params : List Param) (body : Expr) (span : Span) :
    Child (expr (.function params body span)) (expr body)
  | callee (callee : Expr) (lists : List (Arguments Expr)) (span : Span) :
    Child (expr (.calls callee lists span)) (expr callee)
  | argument (callee : Expr) {lists : List (Arguments Expr)} (span : Span) {x : Expr}
    {list : Arguments Expr} (hlist : list ∈ lists) (hx : x ∈ list.items) :
    Child (expr (.calls callee lists span)) (expr x)

/-- The part is a program or stands in it. -/
def In (n : Node) (program : Scope) : Prop := Relation.ReflTransGen Child (scope program) n

end Node

/-! ### Spans -/

/-- A span with both ends changed. -/
def Span.relocate (f : Nat → Nat) (s : Span) : Span := ⟨f s.start, f s.stop⟩

/-- A parameter with its span changed. -/
def Param.relocate (f : Nat → Nat) (p : Param) : Param := ⟨p.name, p.span.relocate f⟩

mutual

/-- An expression with all spans changed. -/
def Expr.relocate (f : Nat → Nat) : Expr → Expr
  | .atom a span => .atom a (span.relocate f)
  | .function params body span =>
    .function (params.map (Param.relocate f)) (body.relocate f) (span.relocate f)
  | .calls callee lists span =>
    .calls (callee.relocate f) (relocateLists f lists) (span.relocate f)

/-- Argument lists with all spans changed. -/
def relocateLists (f : Nat → Nat) : List (Arguments Expr) → List (Arguments Expr)
  | [] => []
  | ⟨items, span⟩ :: lists => ⟨relocateItems f items, span.relocate f⟩ :: relocateLists f lists

/-- Expressions with all spans changed. -/
def relocateItems (f : Nat → Nat) : List Expr → List Expr
  | [] => []
  | x :: xs => x.relocate f :: relocateItems f xs

end

/-- An expression without its spans. -/
def Expr.bare (x : Expr) : Expr := x.relocate fun _ => 0

mutual

/-- A scope with all spans changed. -/
def Scope.relocate (f : Nat → Nat) : Scope → Scope
  | ⟨ds, result, span⟩ => ⟨relocateDefinitions f ds, result.relocate f, span.relocate f⟩

/-- Definitions with all spans changed. -/
def relocateDefinitions (f : Nat → Nat) : List (Definition Scope) → List (Definition Scope)
  | [] => []
  | ⟨name, nameSpan, body, span⟩ :: ds =>
    ⟨name, nameSpan.relocate f, body.relocate f, span.relocate f⟩ :: relocateDefinitions f ds

end

/-! ### Leaving spans as they are -/

section

variable {f : Nat → Nat}

theorem Param.map_relocate_id (h : ∀ n, f n = n) (ps : List Param) :
    ps.map (Param.relocate f) = ps := by
  obtain rfl : f = id := funext h
  exact List.map_id ps

mutual

theorem Expr.relocate_id (h : ∀ n, f n = n) : (x : Expr) → x.relocate f = x
  | .atom a span => by rw [Expr.relocate, Span.relocate, h, h]
  | .function params body span => by
    rw [Expr.relocate, Param.map_relocate_id h, body.relocate_id h, Span.relocate, h, h]
  | .calls callee lists span => by
    rw [Expr.relocate, callee.relocate_id h, relocateLists_id h, Span.relocate, h, h]

theorem relocateLists_id (h : ∀ n, f n = n) : (lists : List (Arguments Expr)) →
    relocateLists f lists = lists
  | [] => by rw [relocateLists]
  | ⟨items, span⟩ :: lists => by
    rw [relocateLists, relocateItems_id h, Span.relocate, h, h, relocateLists_id h]

theorem relocateItems_id (h : ∀ n, f n = n) : (xs : List Expr) → relocateItems f xs = xs
  | [] => by rw [relocateItems]
  | x :: xs => by rw [relocateItems, x.relocate_id h, relocateItems_id h]

end

mutual

theorem Scope.relocate_id (h : ∀ n, f n = n) : (s : Scope) → s.relocate f = s
  | ⟨ds, result, span⟩ => by
    rw [Scope.relocate, relocateDefinitions_id h, result.relocate_id h, Span.relocate, h, h]

theorem relocateDefinitions_id (h : ∀ n, f n = n) : (ds : List (Definition Scope)) →
    relocateDefinitions f ds = ds
  | [] => by rw [relocateDefinitions]
  | ⟨name, nameSpan, body, span⟩ :: ds => by
    simp only [relocateDefinitions, Span.relocate, h, body.relocate_id h,
      relocateDefinitions_id h ds]

end

end

/-! ### Changing spans back -/

section

variable {f g : Nat → Nat}

theorem Span.relocate_relocate (h : ∀ n, g (f n) = n) (s : Span) :
    (s.relocate f).relocate g = s := by
  rw [relocate, relocate, h, h]

theorem Param.map_relocate_relocate (h : ∀ n, g (f n) = n) (ps : List Param) :
    (ps.map (Param.relocate f)).map (Param.relocate g) = ps := by
  rw [List.map_map]
  refine (List.map_congr_left fun p _ => ?_).trans (List.map_id ps)
  rw [Function.comp_apply, relocate, relocate, Span.relocate_relocate h]
  rfl

mutual

theorem Expr.relocate_relocate (h : ∀ n, g (f n) = n) : (x : Expr) →
    (x.relocate f).relocate g = x
  | .atom a span => by rw [Expr.relocate, Expr.relocate, Span.relocate_relocate h]
  | .function params body span => by
    rw [Expr.relocate, Expr.relocate, Param.map_relocate_relocate h, body.relocate_relocate h,
      Span.relocate_relocate h]
  | .calls callee lists span => by
    rw [Expr.relocate, Expr.relocate, callee.relocate_relocate h, relocateLists_relocateLists h,
      Span.relocate_relocate h]

theorem relocateLists_relocateLists (h : ∀ n, g (f n) = n) : (lists : List (Arguments Expr)) →
    relocateLists g (relocateLists f lists) = lists
  | [] => by rw [relocateLists, relocateLists]
  | ⟨items, span⟩ :: lists => by
    rw [relocateLists, relocateLists, relocateItems_relocateItems h, Span.relocate_relocate h,
      relocateLists_relocateLists h]

theorem relocateItems_relocateItems (h : ∀ n, g (f n) = n) : (xs : List Expr) →
    relocateItems g (relocateItems f xs) = xs
  | [] => by rw [relocateItems, relocateItems]
  | x :: xs => by
    rw [relocateItems, relocateItems, x.relocate_relocate h, relocateItems_relocateItems h]

end

mutual

/-- **Changed spans can be changed back.** -/
theorem Scope.relocate_relocate (h : ∀ n, g (f n) = n) : (s : Scope) →
    (s.relocate f).relocate g = s
  | ⟨ds, result, span⟩ => by
    rw [Scope.relocate, Scope.relocate, relocateDefinitions_relocateDefinitions h,
      result.relocate_relocate h, Span.relocate_relocate h]

theorem relocateDefinitions_relocateDefinitions (h : ∀ n, g (f n) = n) :
    (ds : List (Definition Scope)) → relocateDefinitions g (relocateDefinitions f ds) = ds
  | [] => by rw [relocateDefinitions, relocateDefinitions]
  | ⟨name, nameSpan, body, span⟩ :: ds => by
    rw [relocateDefinitions, relocateDefinitions, Span.relocate_relocate h,
      body.relocate_relocate h, Span.relocate_relocate h,
      relocateDefinitions_relocateDefinitions h]

end

end

end DrawLang
