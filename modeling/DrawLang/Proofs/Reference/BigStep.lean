/-
DrawLang/Proofs/Reference/BigStep.lean

A big-step semantics, as rules.  The judgments tell what a phrase comes to, a
value or a stop, where `d` levels are active and the names mean what the
bindings `ρ` say.  Bindings are never changed: a scope hands its definitions on
from one to the next, a function literal keeps them, and the body of a function
is judged under its parameters, its own name, what it keeps and the bindings of
the call, in this order.

There is no machine here.  All that is threaded through is the number of
functions made so far, `n` before the phrase and `k` behind it, which stamps the
next function.  Calls of anything but a function run no code; what they come to
is told by their plan.

Chained phrases are judged as their parts are (`Chain`).  For each phrase that
has parts one lemma puts the rules for it together in this form
(`Expr.yields_calls` and so on); these are all that is used of the rules
elsewhere.
-/
import DrawLang.Proofs.Invocation.Plan
import DrawLang.Proofs.Reference.Basic

namespace DrawLang

/-! ### What the rules speak of -/

/-- The stop where no level is left. -/
def Site.tooDeep (site : Site) : Stop :=
  site.blame (.levels .depth levelLimit) "deeper nesting".toList

/-- What an atom means under some bindings. -/
def Atom.meaning (ρ : Bindings) (source : Text) (span : Span) : Atom → Except Stop (Value Code)
  | .number value => .ok (.number value)
  | .string value => .ok (.string value)
  | .color value => .ok (.color value)
  | .builtin value => .ok (.builtin value)
  | .name id =>
    match ρ.find? id with
    | some v => .ok v
    | none => .error (Site.blameArgument ⟨source, span, [span.start]⟩ 0 .boundName id)

/-- The function that a literal makes: it keeps the bindings around it. -/
def Code.closed (code : Code) (params : List Param) (ρ : Bindings) (stamp : Nat) : Value Code :=
  .function
    { stamp, name := none, params := params.map Param.name, closure := [ρ], body := code,
      text := code.literalText params }

/-- A value as a definition binds it, where `n` functions were made before: a
function without a name takes the name and is made anew. -/
def Value.defined (name : Text) (n : Nat) : Value Code → Value Code × Nat
  | .function f =>
    match f.name with
    | none => (.function { f with stamp := n, name := some name }, n + 1)
    | some _ => (.function f, n)
  | v => (v, n)

/-- The site of a call in a chain, with an argument list. -/
def Arguments.site (list : Arguments Expr) (source : Text) (span : Span) : Site :=
  ⟨source, span, list.items.map fun x => x.span.start⟩

/-- The site of a definition. -/
def Definition.site {β : Type} (first : Definition β) (source : Text) : Site :=
  ⟨source, first.span, [first.nameSpan.start]⟩

/-! ### The rules -/

/-- From so many functions made, a phrase comes to an outcome and so many functions. -/
abbrev Judgment (α : Type) := Nat → Except Stop α → Nat → Prop

mutual

/-- What an expression comes to. -/
inductive Expr.Yields : Nat → Bindings → Text → Expr → Judgment (Value Code)
  | atom {d ρ source a span n} :
    Expr.Yields d ρ source (.atom a span) n (a.meaning ρ source span) n
  | function {d ρ source params body span n} :
    Expr.Yields d ρ source (.function params body span) n
      (.ok (Code.closed ⟨body, source⟩ params ρ n)) (n + 1)
  | tooDeep {d ρ source callee lists span n} (h : levelLimit ≤ d) :
    Expr.Yields d ρ source (.calls callee lists span) n
      (.error (Site.plain source span).tooDeep) n
  | calleeStops {d ρ source callee lists span n s k} (h : d < levelLimit)
    (hcallee : Expr.Yields (d + 1) ρ source callee n (.error s) k) :
    Expr.Yields d ρ source (.calls callee lists span) n (.error s) k
  | calls {d ρ source callee lists span n v k r l} (h : d < levelLimit)
    (hcallee : Expr.Yields (d + 1) ρ source callee n (.ok v) k)
    (hlists : Lists.Yields (d + 1) ρ source v callee.span lists k r l) :
    Expr.Yields d ρ source (.calls callee lists span) n r l

/-- What a row of arguments comes to: they are evaluated from left to right. -/
inductive Items.Yields : Nat → Bindings → Text → List Expr → Judgment (List (Value Code))
  | nil {d ρ source n} : Items.Yields d ρ source [] n (.ok []) n
  | headStops {d ρ source x xs n s k} (hhead : Expr.Yields d ρ source x n (.error s) k) :
    Items.Yields d ρ source (x :: xs) n (.error s) k
  | tailStops {d ρ source x xs n v k s l} (hhead : Expr.Yields d ρ source x n (.ok v) k)
    (htail : Items.Yields d ρ source xs k (.error s) l) :
    Items.Yields d ρ source (x :: xs) n (.error s) l
  | cons {d ρ source x xs n v k vs l} (hhead : Expr.Yields d ρ source x n (.ok v) k)
    (htail : Items.Yields d ρ source xs k (.ok vs) l) :
    Items.Yields d ρ source (x :: xs) n (.ok (v :: vs)) l

/-- What a value at a span comes to that is called with one argument list after another. -/
inductive Lists.Yields : Nat → Bindings → Text → Value Code → Span → List (Arguments Expr) →
    Judgment (Value Code)
  | nil {d ρ source v span n} : Lists.Yields d ρ source v span [] n (.ok v) n
  | itemsStop {d ρ source v span list more n s k}
    (hitems : Items.Yields d ρ source list.items n (.error s) k) :
    Lists.Yields d ρ source v span (list :: more) n (.error s) k
  | callStops {d ρ source v span list more n args k s l}
    (hitems : Items.Yields d ρ source list.items n (.ok args) k)
    (hcall : Call.Yields d ρ (list.site source span) v args k (.error s) l) :
    Lists.Yields d ρ source v span (list :: more) n (.error s) l
  | cons {d ρ source v span list more n args k w l r l'}
    (hitems : Items.Yields d ρ source list.items n (.ok args) k)
    (hcall : Call.Yields d ρ (list.site source span) v args k (.ok w) l)
    (hmore : Lists.Yields d ρ source w (span.upTo list.span) more l r l') :
    Lists.Yields d ρ source v span (list :: more) n r l'

/-- What a call at a site comes to.  The body of a function is run under the
bindings that the call puts over those of the site. -/
inductive Call.Yields : Nat → Bindings → Site → Value Code → List (Value Code) →
    Judgment (Value Code)
  | arity {d ρ site f args n} (h : f.arity.accepts args.length = false) :
    Call.Yields d ρ site (.function f) args n
      (.error (Action.blameArity site f.arity args.length)) n
  | tooDeep {d ρ site f args n} (harity : f.arity.accepts args.length = true)
    (h : levelLimit ≤ d) :
    Call.Yields d ρ site (.function f) args n (.error site.tooDeep) n
  | body {d ρ site f args n r k} (harity : f.arity.accepts args.length = true)
    (h : d < levelLimit)
    (hbody : Expr.Yields (d + 1) (f.bindings .dynamic ρ args) f.body.source f.body.expr n r k) :
    Call.Yields d ρ site (.function f) args n r k
  | plan {d ρ site callee args n} (h : ∀ f, callee ≠ .function f) :
    Call.Yields d ρ site callee args n (callee.plan site args >>= Prod.snd) n

/-- What the bindings of a scope come to be behind some definitions: `own` are
those it has made so far, `ρ` those around it. -/
inductive Definitions.Yields : Nat → Bindings → Bindings → Text → List (Definition Scope) →
    Judgment Bindings
  | nil {d ρ own source n} : Definitions.Yields d ρ own source [] n (.ok own) n
  | bodyStops {d ρ own source first more n s k}
    (hbody : Scope.Yields d (own ++ ρ) source first.body n (.error s) k) :
    Definitions.Yields d ρ own source (first :: more) n (.error s) k
  | bound {d ρ own source first more n v k}
    (hbody : Scope.Yields d (own ++ ρ) source first.body n (.ok v) k)
    (h : own.has first.name = true) :
    Definitions.Yields d ρ own source (first :: more) n
      (.error ((first.site source).blameArgument 0 .newName first.name)) k
  | cons {d ρ own source first more n v k r l}
    (hbody : Scope.Yields d (own ++ ρ) source first.body n (.ok v) k)
    (h : own.has first.name = false)
    (hmore : Definitions.Yields d ρ (own.insert first.name (v.defined first.name k).1) source more
      (v.defined first.name k).2 r l) :
    Definitions.Yields d ρ own source (first :: more) n r l

/-- What a scope comes to. -/
inductive Scope.Yields : Nat → Bindings → Text → Scope → Judgment (Value Code)
  | tooDeep {d ρ source program n} (h : levelLimit ≤ d) :
    Scope.Yields d ρ source program n (.error (Site.plain source program.span).tooDeep) n
  | definitionsStop {d ρ source program n s k} (h : d < levelLimit)
    (hdefinitions : Definitions.Yields (d + 1) ρ [] source program.definitions n (.error s) k) :
    Scope.Yields d ρ source program n (.error s) k
  | result {d ρ source program n own k r l} (h : d < levelLimit)
    (hdefinitions : Definitions.Yields (d + 1) ρ [] source program.definitions n (.ok own) k)
    (hresult : Expr.Yields (d + 1) (own ++ ρ) source program.result k r l) :
    Scope.Yields d ρ source program n r l

end

/-! ### Phrases with parts -/

variable {α γ : Type}

namespace Judgment

/-- A result that takes no functions to be made. -/
def plain (x : Except Stop α) : Judgment α := fun n r k => r = x ∧ k = n

/-- One phrase and then another one, unless the first one stops. -/
def chain (R : Judgment α) (S : α → Judgment γ) : Judgment γ := fun n r l =>
  (∃ s, R n (.error s) l ∧ r = .error s) ∨ ∃ v k, R n (.ok v) k ∧ S v k r l

/-- A phrase that takes a level where `d` are active. -/
def deeper (d : Nat) (site : Site) (R : Judgment α) : Judgment α := fun n r k =>
  levelLimit ≤ d ∧ plain (.error site.tooDeep) n r k ∨ d < levelLimit ∧ R n r k

end Judgment

open Judgment

variable {d : Nat} {ρ own : Bindings} {source : Text}

theorem Expr.yields_atom {a : Atom} {span : Span} :
    Expr.Yields d ρ source (.atom a span) = plain (a.meaning ρ source span) := by
  funext n r k
  refine propext ⟨?_, ?_⟩
  · rintro ⟨⟩
    exact ⟨rfl, rfl⟩
  · rintro ⟨rfl, rfl⟩
    exact .atom

theorem Expr.yields_function {params : List Param} {body : Expr} {span : Span} {n k : Nat}
    {r : Except Stop (Value Code)} :
    Expr.Yields d ρ source (.function params body span) n r k
      ↔ r = .ok (Code.closed ⟨body, source⟩ params ρ n) ∧ k = n + 1 := by
  refine ⟨?_, ?_⟩
  · rintro ⟨⟩
    exact ⟨rfl, rfl⟩
  · rintro ⟨rfl, rfl⟩
    exact .function

theorem Expr.yields_calls {callee : Expr} {lists : List (Arguments Expr)} {span : Span} :
    Expr.Yields d ρ source (.calls callee lists span)
      = deeper d (.plain source span) (chain (Expr.Yields (d + 1) ρ source callee) fun v =>
          Lists.Yields (d + 1) ρ source v callee.span lists) := by
  funext n r k
  refine propext ⟨?_, ?_⟩
  · rintro (_ | _ | h | ⟨h, hcallee⟩ | ⟨h, hcallee, hlists⟩)
    · exact .inl ⟨h, rfl, rfl⟩
    · exact .inr ⟨h, .inl ⟨_, hcallee, rfl⟩⟩
    · exact .inr ⟨h, .inr ⟨_, _, hcallee, hlists⟩⟩
  · rintro (⟨h, rfl, rfl⟩ | ⟨h, ⟨s, hcallee, rfl⟩ | ⟨v, l, hcallee, hlists⟩⟩)
    · exact .tooDeep h
    · exact .calleeStops h hcallee
    · exact .calls h hcallee hlists

theorem Items.yields_nil : Items.Yields d ρ source [] = plain (.ok []) := by
  funext n r k
  refine propext ⟨?_, ?_⟩
  · rintro ⟨⟩
    exact ⟨rfl, rfl⟩
  · rintro ⟨rfl, rfl⟩
    exact .nil

theorem Items.yields_cons {x : Expr} {xs : List Expr} :
    Items.Yields d ρ source (x :: xs) = chain (Expr.Yields d ρ source x) fun v =>
      chain (Items.Yields d ρ source xs) fun vs => plain (.ok (v :: vs)) := by
  funext n r k
  refine propext ⟨?_, ?_⟩
  · rintro (_ | hhead | ⟨hhead, htail⟩ | ⟨hhead, htail⟩)
    · exact .inl ⟨_, hhead, rfl⟩
    · exact .inr ⟨_, _, hhead, .inl ⟨_, htail, rfl⟩⟩
    · exact .inr ⟨_, _, hhead, .inr ⟨_, _, htail, rfl, rfl⟩⟩
  · rintro (⟨s, hhead, rfl⟩ | ⟨v, l, hhead, ⟨s, htail, rfl⟩ | ⟨vs, l', htail, rfl, rfl⟩⟩)
    · exact .headStops hhead
    · exact .tailStops hhead htail
    · exact .cons hhead htail

theorem Lists.yields_nil {v : Value Code} {span : Span} :
    Lists.Yields d ρ source v span [] = plain (.ok v) := by
  funext n r k
  refine propext ⟨?_, ?_⟩
  · rintro ⟨⟩
    exact ⟨rfl, rfl⟩
  · rintro ⟨rfl, rfl⟩
    exact .nil

theorem Lists.yields_cons {v : Value Code} {span : Span} {list : Arguments Expr}
    {more : List (Arguments Expr)} :
    Lists.Yields d ρ source v span (list :: more)
      = chain (Items.Yields d ρ source list.items) fun args =>
        chain (Call.Yields d ρ (list.site source span) v args) fun w =>
          Lists.Yields d ρ source w (span.upTo list.span) more := by
  funext n r k
  refine propext ⟨?_, ?_⟩
  · rintro (_ | hitems | ⟨hitems, hcall⟩ | ⟨hitems, hcall, hmore⟩)
    · exact .inl ⟨_, hitems, rfl⟩
    · exact .inr ⟨_, _, hitems, .inl ⟨_, hcall, rfl⟩⟩
    · exact .inr ⟨_, _, hitems, .inr ⟨_, _, hcall, hmore⟩⟩
  · rintro (⟨s, hitems, rfl⟩ | ⟨args, l, hitems, ⟨s, hcall, rfl⟩ | ⟨w, l', hcall, hmore⟩⟩)
    · exact .itemsStop hitems
    · exact .callStops hitems hcall
    · exact .cons hitems hcall hmore

theorem Call.yields_body {site : Site} {f : Function Code} {args : List (Value Code)}
    (h : f.arity.accepts args.length = true) :
    Call.Yields d ρ site (.function f) args
      = deeper d site
          (Expr.Yields (d + 1) (f.bindings .dynamic ρ args) f.body.source f.body.expr) := by
  funext n r k
  refine propext ⟨?_, ?_⟩
  · rintro (harity | ⟨-, hd⟩ | ⟨-, hd, hbody⟩ | hplain)
    · exact absurd (harity.symm.trans h) Bool.false_ne_true
    · exact .inl ⟨hd, rfl, rfl⟩
    · exact .inr ⟨hd, hbody⟩
    · exact absurd rfl (hplain f)
  · rintro (⟨hd, rfl, rfl⟩ | ⟨hd, hbody⟩)
    · exact .tooDeep h hd
    · exact .body h hd hbody

theorem Call.yields_arity {site : Site} {f : Function Code} {args : List (Value Code)}
    (h : f.arity.accepts args.length = false) :
    Call.Yields d ρ site (.function f) args
      = plain (.error (Action.blameArity site f.arity args.length)) := by
  funext n r k
  refine propext ⟨?_, ?_⟩
  · rintro (- | ⟨harity, -⟩ | ⟨harity, -, -⟩ | hplain)
    · exact ⟨rfl, rfl⟩
    · exact absurd (h.symm.trans harity) Bool.false_ne_true
    · exact absurd (h.symm.trans harity) Bool.false_ne_true
    · exact absurd rfl (hplain f)
  · rintro ⟨rfl, rfl⟩
    exact .arity h

theorem Call.yields_plan {site : Site} {callee : Value Code} {args : List (Value Code)}
    (h : ∀ f, callee ≠ .function f) :
    Call.Yields d ρ site callee args = plain (callee.plan site args >>= Prod.snd) := by
  funext n r k
  refine propext ⟨?_, ?_⟩
  · intro hcall
    cases hcall with
    | plan => exact ⟨rfl, rfl⟩
    | arity | tooDeep | body => exact absurd rfl (h _)
  · rintro ⟨rfl, rfl⟩
    exact .plan h

theorem Definitions.yields_nil : Definitions.Yields d ρ own source [] = plain (.ok own) := by
  funext n r k
  refine propext ⟨?_, ?_⟩
  · rintro ⟨⟩
    exact ⟨rfl, rfl⟩
  · rintro ⟨rfl, rfl⟩
    exact .nil

/-- What binding a name in a scope comes to. -/
def Judgment.bind (own : Bindings) (site : Site) (name : Text) (v : Value Code) :
    Judgment Bindings := fun n r k =>
  if own.has name then plain (.error (site.blameArgument 0 .newName name)) n r k
  else r = .ok (own.insert name (v.defined name n).1) ∧ k = (v.defined name n).2

theorem Definitions.yields_cons {first : Definition Scope} {more : List (Definition Scope)} :
    Definitions.Yields d ρ own source (first :: more)
      = chain (Scope.Yields d (own ++ ρ) source first.body) fun v =>
        chain (Judgment.bind own (first.site source) first.name v) fun own =>
          Definitions.Yields d ρ own source more := by
  funext n r k
  refine propext ⟨?_, ?_⟩
  · rintro (_ | hbody | ⟨hbody, h⟩ | ⟨hbody, h, hmore⟩)
    · exact .inl ⟨_, hbody, rfl⟩
    · exact .inr ⟨_, _, hbody, .inl ⟨_, (if_pos h).mpr ⟨rfl, rfl⟩, rfl⟩⟩
    · refine .inr ⟨_, _, hbody, .inr ⟨_, _, ?_, hmore⟩⟩
      rw [Judgment.bind, if_neg (Bool.not_eq_true _ ▸ h)]
      exact ⟨rfl, rfl⟩
  · rintro (⟨s, hbody, rfl⟩ | ⟨v, l, hbody, hbind⟩)
    · exact .bodyStops hbody
    rcases h : own.has first.name with - | -
    · simp only [chain, Judgment.bind, h] at hbind
      obtain ⟨s, ⟨hs, -⟩, -⟩ | ⟨own', l', ⟨hown, rfl⟩, hmore⟩ := hbind
      · cases hs
      · cases hown
        exact .cons hbody h hmore
    · simp only [chain, Judgment.bind, h] at hbind
      obtain ⟨s, ⟨hs, rfl⟩, rfl⟩ | ⟨own', l', ⟨hown, -⟩, -⟩ := hbind
      · cases hs
        exact .bound hbody h
      · cases hown

theorem Scope.yields {program : Scope} :
    Scope.Yields d ρ source program
      = deeper d (.plain source program.span)
          (chain (Definitions.Yields (d + 1) ρ [] source program.definitions) fun own =>
            Expr.Yields (d + 1) (own ++ ρ) source program.result) := by
  funext n r k
  refine propext ⟨?_, ?_⟩
  · rintro (h | ⟨h, hdefinitions⟩ | ⟨h, hdefinitions, hresult⟩)
    · exact .inl ⟨h, rfl, rfl⟩
    · exact .inr ⟨h, .inl ⟨_, hdefinitions, rfl⟩⟩
    · exact .inr ⟨h, .inr ⟨_, _, hdefinitions, hresult⟩⟩
  · rintro (⟨h, rfl, rfl⟩ | ⟨h, ⟨s, hdefinitions, rfl⟩ | ⟨own, l, hdefinitions, hresult⟩⟩)
    · exact .tooDeep h
    · exact .definitionsStop h hdefinitions
    · exact .result h hdefinitions hresult

end DrawLang
