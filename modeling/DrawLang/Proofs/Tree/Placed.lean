/-
DrawLang/Proofs/Tree/Placed.lean

Where faults can point to.  A fault is placed by where something starts: a call
or a scope, an argument, the name of a definition.  `P` tells the good places of
each text.  A tree is placed in a text if all that can be blamed in it starts
at good places; a value is placed if the bodies of its functions are, each in
its own text, and so are the values that they keep.

Whatever blames a placed site is then pointed: it is a fault at a good place, if
only that place has a position (`Stop.Pointed.fault`).
-/
import DrawLang.Evaluation
import DrawLang.Proofs.Environment.Holds
import DrawLang.Proofs.Value.Inherited

namespace DrawLang

variable (P : Text → Nat → Prop)

/-- The expression starts at a good place of the text, and so do all that are in it. -/
inductive Expr.Placed (source : Text) : Expr → Prop
  | atom {a : Atom} {span : Span} (hstart : P source span.start) :
    Expr.Placed source (.atom a span)
  | function {params : List Param} {body : Expr} {span : Span} (hstart : P source span.start)
    (hbody : Expr.Placed source body) : Expr.Placed source (.function params body span)
  | calls {callee : Expr} {lists : List (Arguments Expr)} {span : Span}
    (hstart : P source span.start) (hcallee : Expr.Placed source callee)
    (hlists : ∀ list ∈ lists, ∀ x ∈ list.items, Expr.Placed source x) :
    Expr.Placed source (.calls callee lists span)

/-- The scope starts at a good place of the text, and so do its definitions, the names
that they bind, and all expressions in it. -/
inductive Scope.Placed (source : Text) : Scope → Prop
  | mk {ds : List (Definition Scope)} {result : Expr} {span : Span}
    (hstart : P source span.start) (hstarts : ∀ d ∈ ds, P source d.span.start)
    (hnames : ∀ d ∈ ds, P source d.nameSpan.start) (hbodies : ∀ d ∈ ds, Scope.Placed source d.body)
    (hresult : result.Placed P source) : Scope.Placed source ⟨ds, result, span⟩

/-- The functions in the value are placed in their texts, and so is what they keep. -/
inductive Value.Placed : Value Code → Prop
  | number (n : Number) : Value.Placed (.number n)
  | string (t : Text) : Value.Placed (.string t)
  | color (c : Color) : Value.Placed (.color c)
  | sequence {vs : List (Value Code)} (h : ∀ v ∈ vs, Value.Placed v) : Value.Placed (.sequence vs)
  | vector (v : Vector) : Value.Placed (.vector v)
  | shape (s : Shape) : Value.Placed (.shape s)
  | function {f : Function Code} (hbody : f.body.expr.Placed P f.body.source)
    (hkept : ∀ frame ∈ f.closure, ∀ entry ∈ frame, Value.Placed entry.2) :
    Value.Placed (.function f)
  | builtin (b : Builtin) : Value.Placed (.builtin b)

/-- The values that are bound are placed. -/
def Frame.Placed (frame : Frame (Value Code)) : Prop := ∀ entry ∈ frame, entry.2.Placed P

/-- All values that are bound are placed. -/
def Environment.Placed (e : Environment (Value Code)) : Prop :=
  ∀ frame ∈ e.frames, Frame.Placed P frame

/-- The callee of the site and its arguments start at good places of its text. -/
structure Site.Placed (site : Site) : Prop where
  start : P site.source site.start
  arguments : ∀ i ∈ site.arguments, P site.source i

/-- The stop tells of a good place of some text. -/
def Stop.Pointed (s : Stop) : Prop :=
  ∃ source offset wanted got, P source offset ∧ s = .at source offset wanted got

variable {P}

/-! ### What blames a placed site -/

/-- At a place that has a position a stop is a fault, with the line and the column of the place. -/
theorem Stop.Pointed.fault {s : Stop} (h : s.Pointed P)
    (hP : ∀ source offset, P source offset → (source.position? offset).isSome) :
    ∃ f source offset p, s = .fault f ∧ P source offset ∧ source.position? offset = some p ∧
      f.line = p.line ∧ f.column = p.column := by
  obtain ⟨source, offset, wanted, got, hplace, rfl⟩ := h
  obtain ⟨p, hp⟩ := Option.isSome_iff_exists.1 (hP source offset hplace)
  refine ⟨⟨wanted, got.getD p.last, p.line, p.column⟩, source, offset, p, ?_, hplace, hp, rfl, rfl⟩
  rw [Stop.at, Fault.at?, hp]
  rfl

namespace Site.Placed

variable {site : Site}

theorem blame (h : site.Placed P) (wanted : Wanted) (got : Text) :
    (site.blame wanted got).Pointed P :=
  ⟨site.source, site.start, wanted, some got, h.start, rfl⟩

theorem blameArgument (h : site.Placed P) (i : Nat) (wanted : Wanted) (got : Text) :
    (site.blameArgument i wanted got).Pointed P := by
  refine ⟨site.source, site.argument i, wanted, some got, ?_, rfl⟩
  rw [Site.argument]
  rcases e : site.arguments[i]? with - | offset
  · exact h.start
  · exact h.arguments offset (List.mem_of_getElem? e)

theorem of_blames (h : site.Placed P) {s : Stop} (hs : site.Blames s) : s.Pointed P := by
  cases hs with
  | callee hwanted got => exact h.blame _ got
  | argument i hwanted got => exact h.blameArgument i _ got

end Site.Placed

theorem Site.placed_plain {source : Text} {span : Span} (h : P source span.start) :
    (Site.plain source span).Placed P :=
  ⟨h, fun _ hi => absurd hi List.not_mem_nil⟩

/-! ### Placed expressions -/

theorem Expr.Placed.start {source : Text} {x : Expr} (h : x.Placed P source) :
    P source x.span.start := by
  cases h with
  | atom start => exact start
  | function start => exact start
  | calls start => exact start

/-! ### Placed values -/

theorem Value.placed_sequence_iff {vs : List (Value Code)} :
    (Value.sequence vs).Placed P ↔ ∀ v ∈ vs, v.Placed P :=
  ⟨fun h => by cases h; assumption, .sequence⟩

theorem Value.placed_function_iff {f : Function Code} :
    (Value.function f).Placed P ↔
      f.body.expr.Placed P f.body.source ∧ ∀ frame ∈ f.closure, Frame.Placed P frame := by
  constructor
  · rintro (- | - | - | - | - | - | ⟨body, kept⟩)
    exact ⟨body, kept⟩
  · exact fun h => .function h.1 h.2

theorem Value.inherited_placed : Value.Inherited (Value.Placed P) where
  sequence _ := placed_sequence_iff
  plain v hv := by
    cases v with
    | sequence | function => exact hv.elim
    | number | string | color | vector | shape | builtin => constructor

/-! ### Placed environments -/

theorem Environment.placed_empty : (Environment.empty : Environment (Value Code)).Placed P :=
  Environment.holds_empty

end DrawLang
