/-
DrawLang/Proofs/Value/Displayed.lean

What is shown of a sequence tells its items.  Values are `IsData` if there is no function
and no undefined number in them.  An item begins with a word, which may be empty, and
behind the word a quote or a bracket opens or the item is over; what is shown tells the
word and what opens behind it (`IsData.leading_eq`).  By this values of two types are told
apart, but for vectors and built-ins, where the words in the parentheses differ.

By induction on the value, in front of an end what is shown of it tells the value up to
equality, and where it is over (`IsData.tells`): numbers and colors are words, a string
ends with its last quote, and everything else has brackets of its own.
-/
import DrawLang.Proofs.Number.Compared
import DrawLang.Proofs.Tree.Printed
import DrawLang.Value.Shown

namespace DrawLang

open Text

variable {β : Type} {r r' : Text}

/-! ### Values without functions and undefined numbers -/

/-- Both coordinates are defined. -/
def Vector.IsDefined (v : Vector) : Prop := v.x.IsDefined ∧ v.y.IsDefined

/-- All numbers in the shape are defined. -/
inductive Shape.IsDefined : Shape → Prop
  | square {size rotation : Number} (hsize : size.IsDefined) (color : Color)
    (hrotation : rotation.IsDefined) : IsDefined (.square size color rotation)
  | parallelogram {base height offset rotation : Number} (hbase : base.IsDefined)
    (hheight : height.IsDefined) (hoffset : offset.IsDefined) (color : Color)
    (hrotation : rotation.IsDefined) : IsDefined (.parallelogram base height offset color rotation)
  | composite {first second : Shape} {anchor : Vector} {rotation : Number}
    (hfirst : IsDefined first) (hsecond : IsDefined second) (hanchor : anchor.IsDefined)
    (hrotation : rotation.IsDefined) : IsDefined (.composite first second anchor rotation)

/-- There are no functions in the value, and all numbers in it are defined. -/
inductive Value.IsData : Value β → Prop
  | number {n : Number} (h : n.IsDefined) : IsData (.number n)
  | string (t : Text) : IsData (.string t)
  | color (c : Color) : IsData (.color c)
  | sequence {items : List (Value β)} (h : ∀ v ∈ items, IsData v) : IsData (.sequence items)
  | vector {v : Vector} (h : v.IsDefined) : IsData (.vector v)
  | shape {s : Shape} (h : s.IsDefined) : IsData (.shape s)
  | builtin (b : Builtin) : IsData (.builtin b)

/-! ### Words -/

/-- The characters that open something inside an item. -/
def Text.openings : Text := ['"', '(', '[']

/-- The characters that can stand behind a word that an item begins with. -/
def Text.itemMarks : Text := [' ', ')', ']'] ++ openings

/-- No character of the text ends a word. -/
def Text.IsBare (t : Text) : Prop := ∀ c ∈ t, c ∉ itemMarks

instance (t : Text) : Decidable t.IsBare := List.decidableBAll (· ∉ itemMarks) t

/-- The text goes on behind an item, with a space or a closing bracket, or is over. -/
def Text.EndsItem (t : Text) : Prop := ∀ c ∈ t.head?, c = ' ' ∨ c = ')' ∨ c = ']'

theorem Text.endsItem_space (t : Text) : EndsItem (' ' :: t) := by
  rintro c ⟨⟩
  exact .inl rfl

theorem Text.endsItem_parenthesis (t : Text) : EndsItem (')' :: t) := by
  rintro c ⟨⟩
  exact .inr (.inl rfl)

theorem Text.endsItem_bracket (t : Text) : EndsItem (']' :: t) := by
  rintro c ⟨⟩
  exact .inr (.inr rfl)

theorem Text.EndsItem.ne_quote {t : Text} (h : t.EndsItem) : t.head? ≠ some '"' := fun hquote =>
  absurd (h _ hquote) (by decide)

theorem Text.EndsItem.mem_itemMarks {t : Text} (h : t.EndsItem) : ∀ c ∈ t.head?, c ∈ itemMarks := by
  intro c hc
  rcases h c hc with rfl | rfl | rfl <;> decide

namespace Number

variable {n m : Number}

theorem IsDefined.isBare (h : n.IsDefined) : n.display.IsBare := by
  rcases h.cases with ⟨negative, h⟩ | h
  · rw [display_infinite h]
    cases negative <;> decide
  · exact (isNumber_display h).forall_not_mem (by decide)

theorem IsDefined.display_ne_nil (h : n.IsDefined) : n.display ≠ [] := by
  rcases h.cases with ⟨negative, h⟩ | h
  · rw [display_infinite h]
    cases negative <;> decide
  · exact (isNumber_display h).ne_nil

/-- A number is not shown like a color. -/
theorem IsDefined.display_ne_name (h : n.IsDefined) (c : Color) : n.display ≠ c.name := by
  rcases h.cases with ⟨negative, h⟩ | h
  · rw [display_infinite h]
    cases negative <;> cases c <;> decide
  · intro hsame
    have hdigit := (isNumber_display h).any_isDigit
    rw [hsame] at hdigit
    cases c <;> exact absurd hdigit (by decide)

/-- In front of an end, what is shown of a number tells it up to equality. -/
theorem IsDefined.tells (hn : n.IsDefined) (hm : m.IsDefined) (hr : r.EndsItem)
    (hr' : r'.EndsItem) (h : n.display ++ r = m.display ++ r') : (n == m) = true ∧ r = r' := by
  obtain ⟨hshown, hrest⟩ := cut_unique hn.isBare hm.isBare hr.mem_itemMarks hr'.mem_itemMarks h
  exact ⟨(display_eq_iff hn hm).1 hshown, hrest⟩

end Number

namespace Color

theorem isBare_name (c : Color) : c.name.IsBare := by
  cases c <;> decide

theorem name_ne_nil (c : Color) : c.name ≠ [] := by
  cases c <;> decide

theorem name_injective {c d : Color} (h : c.name = d.name) : c = d := by
  rw [← Option.some_inj, ← named?_name, h, named?_name]

theorem tells {c d : Color} (hr : r.EndsItem) (hr' : r'.EndsItem)
    (h : c.name ++ r = d.name ++ r') : c = d ∧ r = r' :=
  (cut_unique c.isBare_name d.isBare_name hr.mem_itemMarks hr'.mem_itemMarks h).imp_left
    name_injective

end Color

/-! ### Vectors and shapes -/

namespace Vector

variable {v w : Vector}

theorem display_append (v : Vector) (r : Text) : v.display ++ r =
    "(x:".toList ++ (v.x.display ++ ' ' :: ("y:".toList ++ (v.y.display ++ ')' :: r))) := by
  show "(x:".toList ++ v.x.display ++ ' ' :: "y:".toList ++ v.y.display ++ [')'] ++ r = _
  simp only [List.append_assoc, List.cons_append, List.nil_append]

theorem IsDefined.tells (hv : v.IsDefined) (hw : w.IsDefined)
    (h : v.display ++ r = w.display ++ r') : v.same w ∧ r = r' := by
  rw [display_append, display_append] at h
  obtain ⟨hx, h⟩ := hv.1.tells hw.1 (endsItem_space _) (endsItem_space _)
    (List.append_cancel_left h)
  obtain ⟨hy, h⟩ := hv.2.tells hw.2 (endsItem_parenthesis _) (endsItem_parenthesis _)
    (List.append_cancel_left (List.cons.inj h).2)
  rw [same, hx, hy]
  exact ⟨rfl, (List.cons.inj h).2⟩

theorem IsDefined.display_eq (hv : v.IsDefined) (hw : w.IsDefined) (h : v.same w) :
    v.display = w.display := by
  rw [same, Bool.and_eq_true] at h
  rw [← List.append_nil v.display, ← List.append_nil w.display, display_append, display_append,
    (Number.display_eq_iff hv.1 hw.1).2 h.1, (Number.display_eq_iff hv.2 hw.2).2 h.2]

end Vector

namespace Shape

variable {s s' : Shape}

/-- The name in front of the parts of a shape. -/
def callee : Shape → Text
  | square .. => "square".toList
  | parallelogram .. => "parallelogram".toList
  | composite .. => "merge".toList

theorem isBare_callee (s : Shape) : s.callee.IsBare := by
  cases s with
  | square => exact (by decide : IsBare "square".toList)
  | parallelogram => exact (by decide : IsBare "parallelogram".toList)
  | composite => exact (by decide : IsBare "merge".toList)

theorem callee_ne_nil (s : Shape) : s.callee ≠ [] := by
  cases s with
  | square => exact (by decide : "square".toList ≠ [])
  | parallelogram => exact (by decide : "parallelogram".toList ≠ [])
  | composite => exact (by decide : "merge".toList ≠ [])

theorem exists_display (s : Shape) : ∃ parts, s.display = s.callee ++ '(' :: parts := by
  cases s <;> exact ⟨_, rfl⟩

/-- Shapes that are shown alike are of one kind. -/
theorem callee_eq (h : s.display ++ r = s'.display ++ r') : s.callee = s'.callee := by
  obtain ⟨parts, hparts⟩ := s.exists_display
  obtain ⟨parts', hparts'⟩ := s'.exists_display
  rw [hparts, hparts', List.append_assoc, List.append_assoc] at h
  have hmark (t : Text) : ∀ c ∈ ('(' :: t).head?, c ∈ itemMarks := by
    rintro c ⟨⟩
    decide
  exact (cut_unique s.isBare_callee s'.isBare_callee (hmark _) (hmark _) h).1

theorem square_append (size : Number) (color : Color) (rotation : Number) (r : Text) :
    (square size color rotation).display ++ r = "square(".toList ++
      (size.display ++ ' ' :: (color.name ++ ' ' :: (rotation.display ++ ')' :: r))) := by
  show "square(".toList ++ size.display ++ ' ' :: color.name ++ ' ' :: rotation.display ++ [')']
    ++ r = _
  simp only [List.append_assoc, List.cons_append, List.nil_append]

theorem parallelogram_append (base height offset : Number) (color : Color) (rotation : Number)
    (r : Text) : (parallelogram base height offset color rotation).display ++ r =
      "parallelogram(".toList ++ (base.display ++ ' ' :: (height.display ++ ' ' ::
        (offset.display ++ ' ' :: (color.name ++ ' ' :: (rotation.display ++ ')' :: r))))) := by
  show "parallelogram(".toList ++ base.display ++ ' ' :: height.display ++ ' ' :: offset.display ++
    ' ' :: color.name ++ ' ' :: rotation.display ++ [')'] ++ r = _
  simp only [List.append_assoc, List.cons_append, List.nil_append]

theorem composite_append (first second : Shape) (anchor : Vector) (rotation : Number) (r : Text) :
    (composite first second anchor rotation).display ++ r = "merge(".toList ++
      (first.display ++ ' ' :: (second.display ++ ' ' :: (anchor.display ++ ' ' ::
        (rotation.display ++ ')' :: r)))) := by
  show "merge(".toList ++ first.display ++ ' ' :: second.display ++ ' ' :: anchor.display ++
    ' ' :: rotation.display ++ [')'] ++ r = _
  simp only [List.append_assoc, List.cons_append, List.nil_append]

theorem same_square_iff {size size' : Number} {color color' : Color} {rotation rotation' : Number} :
    same (square size color rotation) (square size' color' rotation') ↔
      size == size' ∧ color = color' ∧ rotation == rotation' := by
  show (size == size' && decide (color = color') && rotation == rotation') = true ↔ _
  rw [Bool.and_eq_true, Bool.and_eq_true, decide_eq_true_eq, and_assoc]

theorem same_parallelogram_iff {base base' height height' offset offset' : Number}
    {color color' : Color} {rotation rotation' : Number} :
    same (parallelogram base height offset color rotation)
        (parallelogram base' height' offset' color' rotation') ↔
      base == base' ∧ height == height' ∧ offset == offset' ∧ color = color' ∧
        rotation == rotation' := by
  show (base == base' && height == height' && offset == offset' && decide (color = color') &&
    rotation == rotation') = true ↔ _
  simp only [Bool.and_eq_true, decide_eq_true_eq, and_assoc]

theorem same_composite_iff {first first' second second' : Shape} {anchor anchor' : Vector}
    {rotation rotation' : Number} :
    same (composite first second anchor rotation) (composite first' second' anchor' rotation') ↔
      first.same first' ∧ second.same second' ∧ anchor.same anchor' ∧ rotation == rotation' := by
  show (first.same first' && second.same second' && anchor.same anchor' &&
    rotation == rotation') = true ↔ _
  simp only [Bool.and_eq_true, and_assoc]

/-- What is shown of a shape tells it up to equality, whatever follows. -/
theorem IsDefined.tells (hs : s.IsDefined) (hs' : s'.IsDefined)
    (h : s.display ++ r = s'.display ++ r') : s.same s' ∧ r = r' := by
  induction hs generalizing s' r r' with
  | square hsize color hrotation =>
    have hcallee := callee_eq h
    cases hs' with
    | square hsize' color' hrotation' =>
      rw [square_append, square_append] at h
      obtain ⟨hsize, h⟩ := hsize.tells hsize' (endsItem_space _) (endsItem_space _)
        (List.append_cancel_left h)
      obtain ⟨hcolor, h⟩ := Color.tells (endsItem_space _) (endsItem_space _) (List.cons.inj h).2
      obtain ⟨hrotation, h⟩ := hrotation.tells hrotation' (endsItem_parenthesis _)
        (endsItem_parenthesis _) (List.cons.inj h).2
      exact ⟨same_square_iff.2 ⟨hsize, hcolor, hrotation⟩, (List.cons.inj h).2⟩
    | parallelogram | composite => cases hcallee
  | parallelogram hbase hheight hoffset color hrotation =>
    have hcallee := callee_eq h
    cases hs' with
    | parallelogram hbase' hheight' hoffset' color' hrotation' =>
      rw [parallelogram_append, parallelogram_append] at h
      obtain ⟨hbase, h⟩ := hbase.tells hbase' (endsItem_space _) (endsItem_space _)
        (List.append_cancel_left h)
      obtain ⟨hheight, h⟩ := hheight.tells hheight' (endsItem_space _) (endsItem_space _)
        (List.cons.inj h).2
      obtain ⟨hoffset, h⟩ := hoffset.tells hoffset' (endsItem_space _) (endsItem_space _)
        (List.cons.inj h).2
      obtain ⟨hcolor, h⟩ := Color.tells (endsItem_space _) (endsItem_space _) (List.cons.inj h).2
      obtain ⟨hrotation, h⟩ := hrotation.tells hrotation' (endsItem_parenthesis _)
        (endsItem_parenthesis _) (List.cons.inj h).2
      exact ⟨same_parallelogram_iff.2 ⟨hbase, hheight, hoffset, hcolor, hrotation⟩,
        (List.cons.inj h).2⟩
    | square | composite => cases hcallee
  | composite hfirst hsecond hanchor hrotation ihfirst ihsecond =>
    have hcallee := callee_eq h
    cases hs' with
    | composite hfirst' hsecond' hanchor' hrotation' =>
      rw [composite_append, composite_append] at h
      obtain ⟨hfirst, h⟩ := ihfirst hfirst' (List.append_cancel_left h)
      obtain ⟨hsecond, h⟩ := ihsecond hsecond' (List.cons.inj h).2
      obtain ⟨hanchor, h⟩ := hanchor.tells hanchor' (List.cons.inj h).2
      obtain ⟨hrotation, h⟩ := hrotation.tells hrotation' (endsItem_parenthesis _)
        (endsItem_parenthesis _) (List.cons.inj h).2
      exact ⟨same_composite_iff.2 ⟨hfirst, hsecond, hanchor, hrotation⟩, (List.cons.inj h).2⟩
    | square | parallelogram => cases hcallee

theorem IsDefined.display_eq (hs : s.IsDefined) (hs' : s'.IsDefined) (h : s.same s') :
    s.display = s'.display := by
  rw [← List.append_nil s.display, ← List.append_nil s'.display]
  induction hs generalizing s' with
  | square hsize color hrotation =>
    cases hs' with
    | square hsize' color' hrotation' =>
      obtain ⟨hs, rfl, hr⟩ := same_square_iff.1 h
      rw [square_append, square_append, (Number.display_eq_iff hsize hsize').2 hs,
        (Number.display_eq_iff hrotation hrotation').2 hr]
    | parallelogram | composite => cases h
  | parallelogram hbase hheight hoffset color hrotation =>
    cases hs' with
    | parallelogram hbase' hheight' hoffset' color' hrotation' =>
      obtain ⟨hb, hh, ho, rfl, hr⟩ := same_parallelogram_iff.1 h
      rw [parallelogram_append, parallelogram_append, (Number.display_eq_iff hbase hbase').2 hb,
        (Number.display_eq_iff hheight hheight').2 hh,
        (Number.display_eq_iff hoffset hoffset').2 ho,
        (Number.display_eq_iff hrotation hrotation').2 hr]
    | square | composite => cases h
  | composite hfirst hsecond hanchor hrotation ihfirst ihsecond =>
    cases hs' with
    | composite hfirst' hsecond' hanchor' hrotation' =>
      obtain ⟨hf, hs, ha, hr⟩ := same_composite_iff.1 h
      rw [composite_append, composite_append, List.append_cancel_right (ihfirst hfirst' hf),
        List.append_cancel_right (ihsecond hsecond' hs), hanchor.display_eq hanchor' ha,
        (Number.display_eq_iff hrotation hrotation').2 hr]
    | square | parallelogram => cases h

end Shape

/-! ### Built-ins -/

namespace Builtin

/-- The parameters as they are shown in a signature. -/
def signature (b : Builtin) : Text := [' '].intercalate (b.params.mapIdx (paramText b.arity))

theorem display_append (b : Builtin) (r : Text) : b.display ++ r =
    ('(' :: b.signature) ++ ')' ::
      (" -> ".toList ++ (b.name ++ '(' :: (b.signature ++ ')' :: r))) := by
  simp [display, signature]

/-- What is shown of a built-in tells it, whatever follows. -/
theorem tells {b b' : Builtin} (h : b.display ++ r = b'.display ++ r') : b = b' ∧ r = r' := by
  have hsignature (b : Builtin) : ')' ∉ '(' :: b.signature := by
    cases b <;> decide
  have hname (b : Builtin) : '(' ∉ b.name := by
    cases b <;> decide
  have hnone {c : Char} {t : Text} (h : c ∉ t) : ∀ d ∈ t, d ∉ [c] := fun d hd hdc =>
    h (List.mem_singleton.1 hdc ▸ hd)
  have hmark (c : Char) (t : Text) : ∀ d ∈ (c :: t).head?, d ∈ [c] := by
    rintro d ⟨⟩
    exact List.mem_singleton_self c
  obtain rfl : b = b' := by
    have hrest := h
    rw [display_append, display_append] at hrest
    obtain ⟨-, hrest⟩ :=
      cut_unique (hnone (hsignature b)) (hnone (hsignature b')) (hmark _ _) (hmark _ _) hrest
    obtain ⟨heq, -⟩ := cut_unique (hnone (hname b)) (hnone (hname b')) (hmark _ _) (hmark _ _)
      (List.append_cancel_left (List.cons.inj hrest).2)
    rw [← Option.some_inj, ← named?_name, heq, named?_name]
  exact ⟨rfl, List.append_cancel_left h⟩

/-- A built-in is not shown like a vector. -/
theorem display_append_ne (b : Builtin) (v : Vector) (r r' : Text) :
    b.display ++ r ≠ v.display ++ r' := by
  intro h
  rw [Vector.display_append] at h
  have hprefix : "(x:".toList <+: b.display := by
    refine List.prefix_of_prefix_length_le (h ▸ List.prefix_append _ _)
      (List.prefix_append b.display r) ?_
    cases b <;> decide
  have hnone : ¬ "(x:".toList <+: b.display := by
    cases b <;> decide
  exact hnone hprefix

end Builtin

/-! ### Items -/

namespace Value

variable {v w : Value β} {vs ws : List (Value β)}

/-- The word that an item begins with. -/
def leading : Value β → Text
  | number n => n.display
  | color c => c.name
  | shape s => s.callee
  | _ => []

/-- The character behind that word, unless the item is over there. -/
def opening? : Value β → Option Char
  | string _ => some '"'
  | sequence _ => some '['
  | vector _ | shape _ | builtin _ => some '('
  | _ => none

/-- An item consists of a word and what opens behind it. -/
theorem IsData.exists_display (hv : v.IsData) :
    v.leading.IsBare ∧ ∃ t, v.displayItem = v.leading ++ t ∧ t.head? = v.opening? := by
  have hnil : IsBare [] := nofun
  cases hv with
  | number h => exact ⟨h.isBare, [], (List.append_nil _).symm, rfl⟩
  | color c => exact ⟨c.isBare_name, [], (List.append_nil _).symm, rfl⟩
  | shape h =>
    obtain ⟨parts, hparts⟩ := Shape.exists_display _
    exact ⟨Shape.isBare_callee _, _, hparts, rfl⟩
  | string | sequence | vector | builtin => exact ⟨hnil, _, rfl, rfl⟩

/-- What opens behind a word ends it, and ends no item. -/
theorem opening?_mem {c : Char} (h : v.opening? = some c) : c ∈ openings := by
  cases v <;> cases h <;> decide

/-- Without an opening there is a word. -/
theorem IsData.leading_ne_nil (hv : v.IsData) (h : v.opening? = none) : v.leading ≠ [] := by
  cases hv with
  | number hn => exact hn.display_ne_nil
  | color c => exact c.name_ne_nil
  | string | sequence | vector | shape | builtin => cases h

/-- What opens behind a word, or is behind the item, ends the word. -/
theorem mem_itemMarks_of_opening {t : Text} (ht : t.head? = v.opening?)
    (hr : ∀ c ∈ r.head?, c ∈ itemMarks) : ∀ c ∈ (t ++ r).head?, c ∈ itemMarks := by
  intro c hc
  rw [List.head?_append, ht] at hc
  rcases hopening : v.opening? with - | d
  · rw [hopening] at hc
    exact hr c hc
  · rw [hopening] at hc
    cases hc
    exact List.mem_append_right _ (opening?_mem hopening)

/-- What opens behind a word is no end of an item. -/
theorem opening?_ne_head (hr : r.EndsItem) {c : Char} (h : v.opening? = some c) :
    r.head? ≠ some c := by
  intro hc
  rcases hr c hc with rfl | rfl | rfl <;> exact absurd (opening?_mem h) (by decide)

/-- Items that are shown alike have the same word, and the same opens behind it. -/
theorem IsData.leading_eq (hv : v.IsData) (hw : w.IsData) (hr : r.EndsItem)
    (hr' : r'.EndsItem) (h : v.displayItem ++ r = w.displayItem ++ r') :
    v.leading = w.leading ∧ v.opening? = w.opening? := by
  obtain ⟨hbare, t, hshown, ht⟩ := hv.exists_display
  obtain ⟨hbare', t', hshown', ht'⟩ := hw.exists_display
  rw [hshown, hshown', List.append_assoc, List.append_assoc] at h
  obtain ⟨hleading, hrest⟩ := cut_unique hbare hbare'
    (mem_itemMarks_of_opening ht hr.mem_itemMarks)
    (mem_itemMarks_of_opening ht' hr'.mem_itemMarks) h
  have hhead := congrArg List.head? hrest
  rw [List.head?_append, List.head?_append, ht, ht'] at hhead
  refine ⟨hleading, ?_⟩
  rcases hopening : v.opening? with - | c <;> rcases hopening' : w.opening? with - | c' <;>
    rw [hopening, hopening'] at hhead
  · exact absurd hhead (opening?_ne_head hr hopening')
  · exact absurd hhead.symm (opening?_ne_head hr' hopening)
  · exact hhead

/-- No item begins with the end of a row. -/
theorem IsData.displayItem_append_ne (hv : v.IsData) : v.displayItem ++ r ≠ ']' :: r' := by
  intro h
  obtain ⟨hbare, t, hshown, ht⟩ := hv.exists_display
  rw [hshown, List.append_assoc] at h
  rcases hleading : v.leading with - | ⟨c, word⟩
  · rcases hopening : v.opening? with - | c
    · exact hv.leading_ne_nil hopening hleading
    · have hhead := congrArg List.head? h
      rw [hleading, List.nil_append, List.head?_append, ht, hopening] at hhead
      exact opening?_ne_head (endsItem_bracket []) hopening hhead.symm
  · rw [hleading] at h hbare
    obtain rfl := (List.cons.inj h).1
    exact hbare ']' List.mem_cons_self (by decide)

/-! ### Rows of items -/

/-- In front of an end, what is shown of the value tells it among such values, up to
equality, and where it is over. -/
def Tells (v : Value β) : Prop :=
  ∀ ⦃w : Value β⦄, w.IsData → ∀ ⦃r r' : Text⦄, r.EndsItem → r'.EndsItem →
    v.displayItem ++ r = w.displayItem ++ r' → v.same w ∧ r = r'

theorem displayItems_eq_spaced (vs : List (Value β)) :
    displayItems vs = spaced (vs.map displayItem) := by
  induction vs with
  | nil => rfl
  | cons v vs ih =>
    cases vs with
    | nil => simp [displayItems, spaced]
    | cons w vs =>
      show v.displayItem ++ ' ' :: displayItems (w :: vs) = _
      rw [ih]
      simp [spaced]

theorem sequence_append (vs : List (Value β)) (r : Text) :
    (sequence vs).displayItem ++ r = '[' :: (displayItems vs ++ ']' :: r) := by
  show '[' :: displayItems vs ++ [']'] ++ r = _
  simp only [List.append_assoc, List.cons_append, List.nil_append]

theorem endsItem_spaced (vs : List (Value β)) (r : Text) :
    EndsItem (vs.flatMap (fun w => ' ' :: w.displayItem) ++ ']' :: r) := by
  cases vs with
  | nil => exact endsItem_bracket r
  | cons v vs => exact endsItem_space _

theorem spaced_tells (hvs : ∀ v ∈ vs, v.Tells) (hws : ∀ w ∈ ws, w.IsData)
    (h : vs.flatMap (fun v => ' ' :: v.displayItem) ++ ']' :: r =
      ws.flatMap (fun w => ' ' :: w.displayItem) ++ ']' :: r') : sameItems vs ws ∧ r = r' := by
  induction vs generalizing ws with
  | nil =>
    cases ws with
    | nil => exact ⟨rfl, (List.cons.inj h).2⟩
    | cons w ws => exact absurd (List.cons.inj h).1 (by decide)
  | cons v vs ih =>
    cases ws with
    | nil => exact absurd (List.cons.inj h).1 (by decide)
    | cons w ws =>
      rw [List.forall_mem_cons] at hvs hws
      rw [List.flatMap_cons, List.flatMap_cons, List.append_assoc, List.append_assoc] at h
      obtain ⟨hsame, h⟩ := hvs.1 hws.1 (endsItem_spaced vs r) (endsItem_spaced ws r')
        (List.cons.inj h).2
      obtain ⟨hsames, hrest⟩ := ih hvs.2 hws.2 h
      rw [sameItems, hsame, hsames]
      exact ⟨rfl, hrest⟩

/-- A row of items tells them if each of them is told. -/
theorem displayItems_tells (hvs : ∀ v ∈ vs, v.Tells) (hvs' : ∀ v ∈ vs, v.IsData)
    (hws : ∀ w ∈ ws, w.IsData) (h : displayItems vs ++ ']' :: r = displayItems ws ++ ']' :: r') :
    sameItems vs ws ∧ r = r' := by
  cases vs with
  | nil =>
    cases ws with
    | nil => exact ⟨rfl, (List.cons.inj h).2⟩
    | cons w ws =>
      rw [displayItems_eq_spaced, displayItems_eq_spaced, spaced_map_nil, spaced_map_cons] at h
      exact absurd h.symm (hws w List.mem_cons_self).displayItem_append_ne
  | cons v vs =>
    cases ws with
    | nil =>
      rw [displayItems_eq_spaced, displayItems_eq_spaced, spaced_map_nil, spaced_map_cons] at h
      exact absurd h (hvs' v List.mem_cons_self).displayItem_append_ne
    | cons w ws =>
      rw [displayItems_eq_spaced, displayItems_eq_spaced, spaced_map_cons, spaced_map_cons] at h
      refine spaced_tells hvs hws ?_
      rw [List.flatMap_cons, List.flatMap_cons, List.append_assoc, List.append_assoc]
      exact congrArg (' ' :: ·) h

theorem map_displayItem_eq (hvs : ∀ v ∈ vs, ∀ ⦃w : Value β⦄, w.IsData → v.same w →
    v.displayItem = w.displayItem) (hws : ∀ w ∈ ws, w.IsData) (h : sameItems vs ws) :
    vs.map displayItem = ws.map displayItem := by
  induction vs generalizing ws with
  | nil =>
    cases ws with
    | nil => rfl
    | cons w ws => cases h
  | cons v vs ih =>
    cases ws with
    | nil => cases h
    | cons w ws =>
      rw [List.forall_mem_cons] at hvs hws
      rw [sameItems, Bool.and_eq_true] at h
      rw [List.map_cons, List.map_cons, hvs.1 hws.1 h.1, ih hvs.2 hws.2 h.2]

/-! ### Values -/

/-- **Such a value is told by what is shown of it as an item.** -/
theorem IsData.tells (hv : v.IsData) : v.Tells := by
  induction hv with
  | number hn =>
    intro w hw r r' hr hr' h
    obtain ⟨hleading, hopening⟩ := (IsData.number hn).leading_eq hw hr hr' h
    cases hw with
    | number hm => exact hn.tells hm hr hr' h
    | color c => exact absurd hleading (hn.display_ne_name c)
    | _ => cases hopening
  | color c =>
    intro w hw r r' hr hr' h
    obtain ⟨hleading, hopening⟩ := (IsData.color c).leading_eq hw hr hr' h
    cases hw with
    | color d => exact (Color.tells hr hr' h).imp_left decide_eq_true
    | number hm => exact absurd hleading.symm (hm.display_ne_name c)
    | _ => cases hopening
  | string t =>
    intro w hw r r' hr hr' h
    obtain ⟨-, hopening⟩ := (IsData.string t).leading_eq hw hr hr' h
    cases hw with
    | string u => exact (quoted_unique hr.ne_quote hr'.ne_quote h).imp_left decide_eq_true
    | _ => cases hopening
  | @sequence vs hvs ih =>
    intro w hw r r' hr hr' h
    obtain ⟨-, hopening⟩ := (IsData.sequence hvs).leading_eq hw hr hr' h
    cases hw with
    | @sequence ws hws =>
      rw [sequence_append, sequence_append] at h
      exact displayItems_tells ih hvs hws (List.cons.inj h).2
    | _ => cases hopening
  -- a parenthesis opens vectors, shapes and built-ins, but only shapes have a word before it
  | vector hv =>
    intro w hw r r' hr hr' h
    obtain ⟨hleading, hopening⟩ := (IsData.vector hv).leading_eq hw hr hr' h
    cases hw with
    | vector hw => exact hv.tells hw h
    | shape => exact absurd hleading.symm (Shape.callee_ne_nil _)
    | builtin b => exact absurd h.symm (b.display_append_ne _ _ _)
    | _ => cases hopening
  | shape hs =>
    intro w hw r r' hr hr' h
    obtain ⟨hleading, hopening⟩ := (IsData.shape hs).leading_eq hw hr hr' h
    cases hw with
    | shape hs' => exact hs.tells hs' h
    | vector | builtin => exact absurd hleading (Shape.callee_ne_nil _)
    | _ => cases hopening
  | builtin b =>
    intro w hw r r' hr hr' h
    obtain ⟨hleading, hopening⟩ := (IsData.builtin b).leading_eq hw hr hr' h
    cases hw with
    | builtin b' => exact (Builtin.tells h).imp_left decide_eq_true
    | vector => exact absurd h (b.display_append_ne _ _ _)
    | shape => exact absurd hleading.symm (Shape.callee_ne_nil _)
    | _ => cases hopening

/-- Equal values are shown alike as items. -/
theorem IsData.displayItem_eq (hv : v.IsData) (hw : w.IsData) (h : v.same w) :
    v.displayItem = w.displayItem := by
  induction hv generalizing w with
  | number hn =>
    cases hw with
    | number hm => exact (Number.display_eq_iff hn hm).2 h
    | _ => cases h
  | string t =>
    cases hw with
    | string u => exact congrArg quoted (of_decide_eq_true h)
    | _ => cases h
  | color c =>
    cases hw with
    | color d => exact congrArg Color.name (of_decide_eq_true h)
    | _ => cases h
  | @sequence vs hvs ih =>
    cases hw with
    | @sequence ws hws =>
      rw [displayItem, displayItem, displayItems_eq_spaced, displayItems_eq_spaced,
        map_displayItem_eq ih hws h]
    | _ => cases h
  | vector hv =>
    cases hw with
    | vector hw => exact hv.display_eq hw h
    | _ => cases h
  | shape hs =>
    cases hw with
    | shape hs' => exact hs.display_eq hs' h
    | _ => cases h
  | builtin b =>
    cases hw with
    | builtin b' => exact congrArg Builtin.display (of_decide_eq_true h)
    | _ => cases h

/-- **Sequences are shown the same just if they are equal**, where there are no functions and no
undefined numbers in them: no item can be taken for another one, or for a part of a row, whatever
strings there are. -/
theorem sequences_are_shown_as_they_are (hvs : ∀ v ∈ vs, v.IsData) (hws : ∀ w ∈ ws, w.IsData) :
    (sequence vs).display = (sequence ws).display ↔ (sequence vs).same (sequence ws) := by
  have hend : EndsItem [] := nofun
  constructor
  · intro h
    exact ((IsData.sequence hvs).tells (.sequence hws) hend hend (congrArg (· ++ []) h)).1
  · exact (IsData.sequence hvs).displayItem_eq (.sequence hws)

/-- Zeros are shown alike, inside of a shape as well, and a string with a quote, a space and a
bracket is not shown like a row of strings. -/
theorem sequences_are_shown_as_they_are_misleading :
    display (β := Empty) (.sequence [.shape (.square 0 .red 0), .number 0, .builtin .vector]) =
        display (β := Empty)
          (.sequence [.shape (.square (-0) .red 0), .number (-0), .builtin .vector]) ∧
      display (β := Empty) (.sequence [.string "a\" \"b]".toList]) ≠
        display (β := Empty) (.sequence [.string "a".toList, .string "b]".toList]) := by
  have hzeros (n : Number) (hn : n.IsDefined) : ∀ v ∈ ([.shape (.square n .red 0), .number n,
      .builtin .vector] : List (Value Empty)), v.IsData := by
    have hzero : Number.IsDefined 0 := by decide
    simp only [List.forall_mem_cons]
    exact ⟨.shape (.square hn .red hzero), .number hn, .builtin .vector, List.forall_mem_nil _⟩
  have hstring (ts : List Text) : ∀ v ∈ ts.map (string : Text → Value Empty), v.IsData := by
    intro v hv
    obtain ⟨t, -, rfl⟩ := List.mem_map.1 hv
    exact .string t
  constructor
  · exact (sequences_are_shown_as_they_are (hzeros 0 (by decide)) (hzeros (-0) (by decide))).2
      (by decide +kernel)
  · intro h
    have hsame := (sequences_are_shown_as_they_are (hstring ["a\" \"b]".toList])
      (hstring ["a".toList, "b]".toList])).1 h
    cases hsame

end Value

end DrawLang
