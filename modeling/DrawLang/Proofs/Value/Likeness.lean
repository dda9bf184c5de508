/-
DrawLang/Proofs/Value/Likeness.lean

Likenesses between values.  Two runs of a program can differ in the functions
that they make, by their stamps or by how the frames they keep are split, and
else come to the same values.  A `Likeness` is a relation that compares values
in this way: functions as it likes, as long as like functions are shown alike,
sequences item by item, and everything else by equality.

No operation can tell like values apart by their views: whatever `Site` checks
of an argument, it finds the same in a like one (`Likeness.number_eq` and the
lemmas that follow it), with the same stop where it is not what is wanted.
-/
import Mathlib.Data.List.Forall2
import DrawLang.Invocation

namespace DrawLang

variable {β β' α : Type}

/-- Values of one kind: functions related by `F`, the items of sequences by
`V`, and everything else the same. -/
inductive Value.Alike (F : Function β → Function β' → Prop) (V : Value β → Value β' → Prop) :
    Value β → Value β' → Prop
  | number (n : Number) : Alike F V (.number n) (.number n)
  | string (t : Text) : Alike F V (.string t) (.string t)
  | color (c : Color) : Alike F V (.color c) (.color c)
  | sequence {vs : List (Value β)} {vs' : List (Value β')} :
    List.Forall₂ V vs vs' → Alike F V (.sequence vs) (.sequence vs')
  | vector (v : Vector) : Alike F V (.vector v) (.vector v)
  | shape (s : Shape) : Alike F V (.shape s) (.shape s)
  | function {f : Function β} {f' : Function β'} : F f f' → Alike F V (.function f) (.function f')
  | builtin (b : Builtin) : Alike F V (.builtin b) (.builtin b)

/-- A relation that compares functions as it likes and all other values by
their parts. -/
structure Likeness (β β' : Type) where
  value : Value β → Value β' → Prop
  function : Function β → Function β' → Prop
  value_iff : ∀ v v', value v v' ↔ Value.Alike function value v v'
  text_eq : ∀ f f', function f f' → f.text = f'.text

namespace Likeness

variable (L : Likeness β β') {v : Value β} {v' : Value β'}

theorem of_alike (h : Value.Alike L.function L.value v v') : L.value v v' := (L.value_iff v v').2 h

theorem alike (h : L.value v v') : Value.Alike L.function L.value v v' := (L.value_iff v v').1 h

/-! ### How like values are shown -/

mutual

/-- Like values are shown alike as items of a sequence. -/
theorem displayItem_eq : (v : Value β) → (v' : Value β') → L.value v v' →
    v.displayItem = v'.displayItem
  | .sequence vs, v', h => by
    have ha := L.alike h
    match v', ha with
    | .sequence vs', .sequence hvs =>
      rw [Value.displayItem, Value.displayItem, displayItems_eq vs vs' hvs]
  | .function f, v', h => by
    have ha := L.alike h
    match v', ha with
    | .function f', .function hf => exact L.text_eq f f' hf
  | .number _, _, h | .string _, _, h | .color _, _, h | .vector _, _, h | .shape _, _, h
  | .builtin _, _, h => by
    cases L.alike h
    rfl

/-- Like sequences are shown alike. -/
theorem displayItems_eq : (vs : List (Value β)) → (vs' : List (Value β')) →
    List.Forall₂ L.value vs vs' → Value.displayItems vs = Value.displayItems vs'
  | [], _, .nil => rfl
  | [v], [v'], .cons hv .nil => by
    rw [Value.displayItems, Value.displayItems, displayItem_eq v v' hv]
  -- a separator stands between two items, so a single item is a case of its own
  | v :: w :: vs, v' :: w' :: vs', .cons hv (.cons hw hvs) => by
    have hrest := displayItems_eq (w :: vs) (w' :: vs') (.cons hw hvs)
    show v.displayItem ++ ' ' :: Value.displayItems (w :: vs)
      = v'.displayItem ++ ' ' :: Value.displayItems (w' :: vs')
    rw [displayItem_eq v v' hv, hrest]

end

/-- Like values are shown alike. -/
theorem display_eq (h : L.value v v') : v.display = v'.display := by
  have hitem := L.displayItem_eq v v' h
  cases L.alike h with
  | string t => rfl
  | number | color | sequence | vector | shape | function | builtin => exact hitem

/-! ### Views of like values -/

theorem number?_eq (h : L.value v v') : v.number? = v'.number? := by
  cases L.alike h <;> rfl

theorem color?_eq (h : L.value v v') : v.color? = v'.color? := by
  cases L.alike h <;> rfl

theorem shape?_eq (h : L.value v v') : v.shape? = v'.shape? := by
  cases L.alike h <;> rfl

theorem vector?_eq (h : L.value v v') : v.vector? = v'.vector? := by
  cases L.alike h <;> rfl

/-- The items that like values add to a joined sequence are like. -/
theorem spread (h : L.value v v') : List.Forall₂ L.value v.spread v'.spread := by
  cases L.alike h with
  | sequence hvs => exact hvs
  | number | string | color | vector | shape | function | builtin => exact .cons h .nil

/-! ### Checks of like arguments -/

variable (site : Site) (i : Nat)

theorem expect_eq {wanted : Wanted} {view : Value β → Option α} {view' : Value β' → Option α}
    (h : L.value v v') (hview : view v = view' v') :
    site.expect i wanted view v = site.expect i wanted view' v' := by
  rw [Site.expect, Site.expect, hview, L.display_eq h]

theorem number_eq (h : L.value v v') : site.number i v = site.number i v' :=
  L.expect_eq site i h (L.number?_eq h)

theorem color_eq (h : L.value v v') : site.color i v = site.color i v' :=
  L.expect_eq site i h (L.color?_eq h)

theorem shape_eq (h : L.value v v') : site.shape i v = site.shape i v' :=
  L.expect_eq site i h (L.shape?_eq h)

theorem vector_eq (h : L.value v v') : site.vector i v = site.vector i v' :=
  L.expect_eq site i h (L.vector?_eq h)

theorem integer_eq (h : L.value v v') : site.integer i v = site.integer i v' := by
  rw [Site.integer, Site.integer, L.number_eq site i h, L.display_eq h]

theorem count_eq (h : L.value v v') : site.count i v = site.count i v' := by
  rw [Site.count, Site.count, L.integer_eq site i h, L.display_eq h]

end Likeness

end DrawLang
