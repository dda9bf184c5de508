/-
DrawLang/Proofs/Tree/Printed.lean

Printed trees can be told apart.  Trees are `Alike` if they differ in their spans only,
or in the signs of zeros, as numbers are compared as numbers.  Trees that can be written
are alike if they are printed the same.  This holds within any text that goes on with a
space or a closing parenthesis (`Expr.printed_tells`, `Scope.printed_tells`): a leaf
ends in front of these, a string ends with its quote, and everything else stands in
parentheses of its own.
-/
import DrawLang.Tree.Printed
import DrawLang.Proofs.Number.Display
import DrawLang.Proofs.Token.Fits
import Mathlib.Data.List.Forall2

namespace DrawLang

open Text

/-! ### Trees up to spans -/

/-- The same atom; numbers are compared as numbers. -/
def Atom.Alike : Atom → Atom → Prop
  | number n, number m => n == m
  | a, b => a = b

/-- The same expression up to spans. -/
inductive Expr.Alike : Expr → Expr → Prop
  | atom {a b : Atom} (h : a.Alike b) (s u : Span) : Alike (.atom a s) (.atom b u)
  | function {ps qs : List Param} {x y : Expr}
    (hparams : List.Forall₂ (fun p q => p.name = q.name) ps qs) (hbody : Alike x y)
    (s u : Span) : Alike (.function ps x s) (.function qs y u)
  | calls {x y : Expr} {ls ks : List (Arguments Expr)} (hcallee : Alike x y)
    (hlists : List.Forall₂ (fun l k => List.Forall₂ Alike l.items k.items) ls ks) (s u : Span) :
    Alike (.calls x ls s) (.calls y ks u)

/-- The same scope up to spans. -/
inductive Scope.Alike : Scope → Scope → Prop
  | mk {ds es : List (Definition Scope)} {x y : Expr}
    (hnames : List.Forall₂ (fun d e => d.name = e.name) ds es)
    (hbodies : List.Forall₂ (fun d e => Alike d.body e.body) ds es) (hresult : x.Alike y)
    (s u : Span) : Alike ⟨ds, x, s⟩ ⟨es, y, u⟩

/-! ### Trees that can be written -/

/-- The kind of the token that an atom is. -/
def Atom.kind : Atom → TokenKind
  | number n => .number n
  | string v => .string v
  | color c => .color c
  | builtin b => .builtin b
  | name _ => .identifier

/-- The atom is a finite number, a string, or a word that stands for it. -/
inductive Atom.Writable : Atom → Prop
  | number {n : Number} (h : n.IsFinite) : Writable (.number n)
  | string (v : Text) : Writable (.string v)
  | word {a : Atom} (hword : IsWord a.printed) (hkind : TokenKind.ofWord a.printed = a.kind) :
    Writable a

/-- All atoms in the expression can be written, and parameters are words. -/
inductive Expr.Writable : Expr → Prop
  | atom {a : Atom} (h : a.Writable) (span : Span) : Writable (.atom a span)
  | function {params : List Param} {body : Expr} (hparams : ∀ p ∈ params, IsWord p.name)
    (hbody : Writable body) (span : Span) : Writable (.function params body span)
  | calls {callee : Expr} {lists : List (Arguments Expr)} (hcallee : Writable callee)
    (hlists : ∀ list ∈ lists, ∀ x ∈ list.items, Writable x) (span : Span) :
    Writable (.calls callee lists span)

/-- All expressions in the scope can be written, and definitions are of words. -/
inductive Scope.Writable : Scope → Prop
  | mk {ds : List (Definition Scope)} {result : Expr} (hnames : ∀ d ∈ ds, IsWord d.name)
    (hbodies : ∀ d ∈ ds, Writable d.body) (hresult : result.Writable) (span : Span) :
    Writable ⟨ds, result, span⟩

/-! ### Leaves -/

/-- The characters that end a leaf that is no string. -/
def Text.delimiters : Text := [' ', '(', ')', '"']

theorem Text.mem_delimiters {c : Char} :
    c ∈ delimiters ↔ c = ' ' ∨ c = '(' ∨ c = ')' ∨ c = '"' := by
  simp [delimiters]

/-- A leaf that is no string. -/
def Text.IsLeaf (t : Text) : Prop := t ≠ [] ∧ ∀ c ∈ t, c ∉ delimiters

/-- The text goes on with a space or a closing parenthesis, or is over. -/
def Text.Ends (t : Text) : Prop := ∀ c ∈ t.head?, c = ' ' ∨ c = ')'

/-- In front of an end, what is printed for `x` and `y` tells whether they are related,
and where it ends. -/
def Text.Tells {α : Type} (print : α → Text) (R : α → α → Prop) (x y : α) : Prop :=
  ∀ ⦃r r' : Text⦄, r.Ends → r'.Ends → print x ++ r = print y ++ r' → R x y ∧ r = r'

theorem Text.Ends.mem_delimiters {t : Text} (h : t.Ends) : ∀ c ∈ t.head?, c ∈ delimiters := by
  intro c hc
  rcases h c hc with rfl | rfl <;> decide

theorem Text.Ends.ne_quote {t : Text} (h : t.Ends) : t.head? ≠ some '"' := fun hquote =>
  absurd (h _ hquote) (by decide)

theorem Text.ends_space (t : Text) : Ends (' ' :: t) := by
  rintro c ⟨⟩
  exact .inl rfl

theorem Text.ends_closing (t : Text) : Ends (')' :: t) := by
  rintro c ⟨⟩
  exact .inr rfl

theorem Text.IsWord.isLeaf {w : Text} (h : IsWord w) : IsLeaf w := by
  refine ⟨h.ne_nil, fun c hc hdelimiter => ?_⟩
  rcases w with - | ⟨d, w⟩
  · cases hc
  · rcases List.mem_cons.1 hc with rfl | hc
    · have hstarts := h.1
      rcases mem_delimiters.1 hdelimiter with rfl | rfl | rfl | rfl <;> cases hstarts
    · have hcontinues := h.2 c hc
      rcases mem_delimiters.1 hdelimiter with rfl | rfl | rfl | rfl <;>
        exact absurd hcontinues (by decide)

theorem Text.IsNumber.isLeaf {t : Text} (h : IsNumber t) : IsLeaf t :=
  ⟨h.ne_nil, h.forall_not_mem (by decide)⟩

/-- A leaf ends where something else begins. -/
theorem Text.IsLeaf.unique {t u r r' : Text} (ht : t.IsLeaf) (hu : u.IsLeaf) (hr : r.Ends)
    (hr' : r'.Ends) (h : t ++ r = u ++ r') : t = u ∧ r = r' :=
  cut_unique ht.2 hu.2 hr.mem_delimiters hr'.mem_delimiters h

theorem Text.IsLeaf.not_ends {t : Text} (h : t.IsLeaf) (r : Text) : ¬ Ends (t ++ r) := by
  obtain ⟨c, t, rfl⟩ := List.exists_cons_of_ne_nil h.1
  intro hends
  rcases hends c rfl with rfl | rfl <;> exact h.2 _ List.mem_cons_self (by decide)

/-- Numbers are no words. -/
theorem Text.IsNumber.not_isWord {t : Text} (h : IsNumber t) : ¬ IsWord t := by
  obtain ⟨sign, digits, fraction, rfl, hsign, ⟨hne, hdigits⟩, -⟩ := h
  rcases hsign with rfl | rfl | rfl
  · rcases digits with - | ⟨c, digits⟩
    · exact absurd rfl hne
    · exact fun hword => Piece.not_isDigit_of_startsWord hword.1 (hdigits c List.mem_cons_self)
  · exact fun hword => absurd hword.1 (by decide)
  · exact fun hword => absurd hword.1 (by decide)

/-- A leaf begins with no quote. -/
theorem Text.IsLeaf.ne_quoted {t v r r' : Text} (ht : t.IsLeaf) :
    t ++ r ≠ quoted v ++ r' := by
  obtain ⟨hne, hleaf⟩ := ht
  obtain ⟨c, t, rfl⟩ := List.exists_cons_of_ne_nil hne
  intro h
  obtain rfl : c = '"' := (List.cons.inj h).1
  exact hleaf '"' List.mem_cons_self (by decide)

namespace Atom

/-- An atom that can be written is a string, or a leaf without quotes. -/
theorem Writable.isLeaf {a : Atom} (h : a.Writable) :
    (∃ v, a = .string v) ∨ a.printed.IsLeaf := by
  cases h with
  | number h => exact .inr (Number.isNumber_display h).isLeaf
  | string v => exact .inl ⟨v, rfl⟩
  | word hword => exact .inr hword.isLeaf

/-- What an atom is printed as begins with a character that opens and ends nothing. -/
theorem Writable.exists_head {a : Atom} (h : a.Writable) :
    ∃ c t, a.printed = c :: t ∧ c ≠ ' ' ∧ c ≠ '(' ∧ c ≠ ')' := by
  obtain ⟨v, rfl⟩ | ⟨hne, hleaf⟩ := h.isLeaf
  · exact ⟨'"', doubled v ++ ['"'], rfl, by decide, by decide, by decide⟩
  · obtain ⟨c, t, ht⟩ := List.exists_cons_of_ne_nil hne
    have hc := hleaf c (ht ▸ List.mem_cons_self)
    simp only [delimiters, List.mem_cons, not_or] at hc
    exact ⟨c, t, ht, hc.1, hc.2.1, hc.2.2.1⟩

theorem Writable.ne_opening {a : Atom} (h : a.Writable) (r s : Text) :
    a.printed ++ r ≠ '(' :: s := by
  obtain ⟨c, t, ht, -, hopening, -⟩ := h.exists_head
  rw [ht]
  exact fun he => hopening (List.cons.inj he).1

/-- Words stand for no more than one atom. -/
theorem alike_of_ofWord {a b : Atom} (ha : TokenKind.ofWord a.printed = a.kind)
    (hb : TokenKind.ofWord b.printed = b.kind) (h : a.printed = b.printed) : a.Alike b := by
  have hkind : a.kind = b.kind := by rw [← ha, ← hb, h]
  cases a with
  | number n =>
    -- "NaN" and "inf" are words, but no words stand for numbers
    have hkeyword : (TokenKind.ofWord (printed (.number n))).IsKeyword :=
      TokenKind.isKeyword_of_mem (TokenKind.keyword_of_ofWord (by rw [ha]; exact nofun))
    rw [ha] at hkeyword
    exact hkeyword.elim
  | name id =>
    cases b with
    | name _ => exact congrArg name h
    | number | string | color | builtin => cases hkind
  | string | color | builtin =>
    cases b <;> cases hkind
    rfl

/-- Leaves that are printed the same are alike. -/
theorem Writable.alike {a b : Atom} (ha : a.Writable) (hb : b.Writable)
    (hleaf : a.printed.IsLeaf) (h : a.printed = b.printed) : a.Alike b := by
  have hstring (v : Text) : Atom.printed (.string v) ≠ a.printed := fun he =>
    hleaf.ne_quoted (congrArg (· ++ []) he.symm)
  cases ha with
  | string v => exact absurd rfl (hstring v)
  | number hn =>
    cases hb with
    | number hm => exact Number.beq_of_display hn hm h
    | string v => exact absurd h.symm (hstring v)
    | word hword =>
      rw [← h] at hword
      exact absurd hword (Number.isNumber_display hn).not_isWord
  | word hword hkind =>
    cases hb with
    | number hm =>
      rw [h] at hword
      exact absurd hword (Number.isNumber_display hm).not_isWord
    | string v => exact absurd h.symm (hstring v)
    | word _ hkind' => exact alike_of_ofWord hkind hkind' h

/-- **An atom ends where something else begins.** -/
theorem printed_tells {a b : Atom} (ha : a.Writable) (hb : b.Writable) :
    Tells printed Alike a b := by
  intro r r' hr hr' h
  rcases ha.isLeaf with ⟨v, rfl⟩ | hleaf <;> rcases hb.isLeaf with ⟨w, rfl⟩ | hleaf'
  · obtain ⟨rfl, rfl⟩ := quoted_unique hr.ne_quote hr'.ne_quote h
    exact ⟨rfl, rfl⟩
  · exact absurd h.symm hleaf'.ne_quoted
  · exact absurd h hleaf.ne_quoted
  · obtain ⟨hprinted, rfl⟩ := hleaf.unique hleaf' hr hr' h
    exact ⟨ha.alike hb hleaf hprinted, rfl⟩

end Atom

/-! ### Rows -/

section Rows

variable {α : Type} {print : α → Text} {R : α → α → Prop} {r r' : Text}

theorem Text.ends_flatMap (hends : ∀ x s, (print x ++ s).Ends) (xs : List α) (hr : r.Ends) :
    Ends (xs.flatMap print ++ r) := by
  cases xs with
  | nil => exact hr
  | cons x xs =>
    rw [List.flatMap_cons, List.append_assoc]
    exact hends x _

/-- A row is told apart if its parts are, and if it is clear where it is over. -/
theorem Text.flatMap_unique {xs ys : List α} (hr : r.Ends) (hr' : r'.Ends)
    (hends : ∀ x s, (print x ++ s).Ends) (hstop : ∀ x s, print x ++ s ≠ r')
    (hstop' : ∀ y s, print y ++ s ≠ r) (htells : ∀ x ∈ xs, ∀ y ∈ ys, Tells print R x y)
    (h : xs.flatMap print ++ r = ys.flatMap print ++ r') : List.Forall₂ R xs ys ∧ r = r' := by
  induction xs generalizing ys with
  | nil =>
    cases ys with
    | nil => exact ⟨.nil, h⟩
    | cons y ys =>
      rw [List.flatMap_cons, List.append_assoc] at h
      exact absurd h.symm (hstop' y _)
  | cons x xs ih =>
    cases ys with
    | nil =>
      rw [List.flatMap_cons, List.append_assoc] at h
      exact absurd h (hstop x _)
    | cons y ys =>
      rw [List.flatMap_cons, List.flatMap_cons, List.append_assoc, List.append_assoc] at h
      obtain ⟨hxy, h⟩ :=
        htells x List.mem_cons_self y List.mem_cons_self (ends_flatMap hends xs hr)
          (ends_flatMap hends ys hr') h
      obtain ⟨hrow, hrest⟩ := ih (fun x hx y hy =>
        htells x (List.mem_cons_of_mem _ hx) y (List.mem_cons_of_mem _ hy)) h
      exact ⟨.cons hxy hrow, hrest⟩

theorem Text.spaced_map_nil (print : α → Text) (t : Text) : spaced ([].map print) ++ t = t := rfl

theorem Text.spaced_map_cons (x : α) (xs : List α) (t : Text) :
    spaced ((x :: xs).map print) ++ t =
      print x ++ (xs.flatMap (fun y => ' ' :: print y) ++ t) := by
  rw [← List.append_assoc]
  congr 1
  induction xs generalizing x with
  | nil => simp [spaced]
  | cons y xs ih =>
    rw [List.flatMap_cons, List.cons_append, ← ih]
    simp [spaced]

/-- A row with spaces is told apart in front of a closing parenthesis if its parts are,
and if none of them begins like the end of a part. -/
theorem Text.spaced_unique {xs ys : List α} (hxs : ∀ x ∈ xs, ∀ s, ¬ (print x ++ s).Ends)
    (hys : ∀ y ∈ ys, ∀ s, ¬ (print y ++ s).Ends)
    (htells : ∀ x ∈ xs, ∀ y ∈ ys, Tells print R x y)
    (h : spaced (xs.map print) ++ ')' :: r = spaced (ys.map print) ++ ')' :: r') :
    List.Forall₂ R xs ys ∧ r = r' := by
  have hspace (z : α) (s : Text) : Ends (' ' :: print z ++ s) := ends_space _
  have hstop {z : α} {s q : Text} : ' ' :: print z ++ s ≠ ')' :: q := fun h =>
    absurd (List.cons.inj h).1 (by decide)
  cases xs with
  | nil =>
    cases ys with
    | nil => exact ⟨.nil, (List.cons.inj h).2⟩
    | cons y ys =>
      rw [spaced_map_nil, spaced_map_cons] at h
      exact absurd (h ▸ ends_closing r) (hys y List.mem_cons_self _)
  | cons x xs =>
    cases ys with
    | nil =>
      rw [spaced_map_cons, spaced_map_nil] at h
      exact absurd (h ▸ ends_closing r') (hxs x List.mem_cons_self _)
    | cons y ys =>
      rw [spaced_map_cons, spaced_map_cons] at h
      obtain ⟨hxy, h⟩ := htells x List.mem_cons_self y List.mem_cons_self
        (ends_flatMap hspace xs (ends_closing r)) (ends_flatMap hspace ys (ends_closing r')) h
      obtain ⟨hrow, hrest⟩ := flatMap_unique (ends_closing r) (ends_closing r') hspace
        (fun _ _ => hstop) (fun _ _ => hstop)
        (fun x hx y hy s s' hs hs' hxy => htells x (List.mem_cons_of_mem _ hx) y
          (List.mem_cons_of_mem _ hy) hs hs' (List.cons.inj hxy).2) h
      exact ⟨.cons hxy hrow, (List.cons.inj hrest).2⟩

end Rows

/-! ### Expressions -/

/-- The printed form of an argument list, with a space before it. -/
def Arguments.printed (list : Arguments Expr) : Text :=
  " (".toList ++ (spaced (list.items.map Expr.printed) ++ [')'])

/-- The printed form of a definition, with a space before it. -/
def Definition.printed (d : Definition Scope) : Text :=
  " (def ".toList ++ (d.name ++ ' ' :: (d.body.printed ++ [')']))

theorem Arguments.printed_append (list : Arguments Expr) (r : Text) :
    list.printed ++ r = " (".toList ++ (spaced (list.items.map Expr.printed) ++ ')' :: r) := by
  rw [printed, List.append_assoc, List.append_assoc]
  rfl

theorem Definition.printed_append (d : Definition Scope) (r : Text) :
    d.printed ++ r = " (def ".toList ++ (d.name ++ ' ' :: (d.body.printed ++ ')' :: r)) := by
  unfold printed
  simp only [List.append_assoc, List.cons_append, List.nil_append]

namespace Expr

theorem printedItems_eq (items : List Expr) : printedItems items = items.map printed := by
  induction items with
  | nil => rfl
  | cons e es ih => exact congrArg (e.printed :: ·) ih

theorem printedLists_eq (lists : List (Arguments Expr)) :
    printedLists lists = lists.flatMap Arguments.printed := by
  induction lists with
  | nil => rfl
  | cons list lists ih =>
    have hcons : printedLists (list :: lists) =
        " (".toList ++ spaced (printedItems list.items) ++ ')' :: printedLists lists := rfl
    rw [hcons, printedItems_eq, ih, List.flatMap_cons, Arguments.printed_append,
      List.append_assoc]

theorem printed_atom_append (a : Atom) (span : Span) (r : Text) :
    printed (.atom a span) ++ r = a.printed ++ r := rfl

theorem printed_function_append (params : List Param) (body : Expr) (span : Span) (r : Text) :
    printed (.function params body span) ++ r =
      "(fn (".toList ++ (spaced (params.map Param.name) ++ ')' :: ' ' ::
        (body.printed ++ ')' :: r)) := by
  have hprinted : printed (.function params body span) =
      "(fn (".toList ++ spaced (params.map Param.name) ++ ") ".toList ++ body.printed ++ [')'] :=
    rfl
  rw [hprinted]
  simp only [List.append_assoc]
  rfl

theorem printed_calls_append (callee : Expr) (lists : List (Arguments Expr)) (span : Span)
    (r : Text) : printed (.calls callee lists span) ++ r =
      "(call ".toList ++ (callee.printed ++ (lists.flatMap Arguments.printed ++ ')' :: r)) := by
  have hprinted : printed (.calls callee lists span) =
      "(call ".toList ++ callee.printed ++ printedLists lists ++ [')'] := rfl
  simp [hprinted, printedLists_eq]

/-- What an expression is printed as begins like no end of another one. -/
theorem Writable.not_ends {x : Expr} (h : x.Writable) (r : Text) :
    ¬ Ends (x.printed ++ r) := by
  cases h with
  | atom ha s =>
    obtain ⟨c, t, ht, hspace, -, hclosing⟩ := ha.exists_head
    rw [printed_atom_append, ht]
    exact fun hends => (hends c rfl).elim hspace hclosing
  | function _ _ s =>
    rw [printed_function_append]
    exact fun hends => absurd (hends '(' rfl) (by decide)
  | calls _ _ s =>
    rw [printed_calls_append]
    exact fun hends => absurd (hends '(' rfl) (by decide)

/-- Functions are not printed like calls. -/
theorem fn_ne_call {r r' : Text} : "(fn (".toList ++ r ≠ "(call ".toList ++ r' := by
  intro h
  have hname := List.head_eq_of_cons_eq (List.cons.inj h).2
  exact absurd hname (by decide)

/-- An argument list is told apart if its items are. -/
theorem arguments_tells {l k : Arguments Expr} (hl : ∀ x ∈ l.items, x.Writable)
    (hk : ∀ y ∈ k.items, y.Writable)
    (htells : ∀ x ∈ l.items, ∀ y ∈ k.items, Tells printed Alike x y) :
    Tells Arguments.printed (fun l k => List.Forall₂ Alike l.items k.items) l k := by
  intro r r' hr hr' h
  rw [Arguments.printed_append, Arguments.printed_append] at h
  exact spaced_unique (fun x hx => (hl x hx).not_ends) (fun y hy => (hk y hy).not_ends) htells
    (List.append_cancel_left h)

/-- **An expression ends where something else begins.** -/
theorem printed_tells {x y : Expr} (hx : x.Writable) (hy : y.Writable) :
    Tells printed Alike x y := by
  intro r r' hr hr' h
  -- the first characters tell which form the other expression has
  induction hx generalizing y r r' with
  | atom ha s =>
    cases hy with
    | atom hb u =>
      obtain ⟨hab, hrest⟩ := Atom.printed_tells ha hb hr hr' h
      exact ⟨.atom hab s u, hrest⟩
    | function _ _ u =>
      rw [printed_function_append] at h
      exact absurd h (ha.ne_opening _ _)
    | calls _ _ u =>
      rw [printed_calls_append] at h
      exact absurd h (ha.ne_opening _ _)
  | function hparams hbody s ih =>
    cases hy with
    | atom hb u =>
      rw [printed_function_append] at h
      exact absurd h.symm (hb.ne_opening _ _)
    | calls _ _ u =>
      rw [printed_function_append, printed_calls_append] at h
      exact absurd h fn_ne_call
    | function hparams' hbody' u =>
      rw [printed_function_append, printed_function_append] at h
      obtain ⟨hnames, h⟩ := spaced_unique (R := fun p q => p.name = q.name)
        (fun p hp => (hparams p hp).isLeaf.not_ends) (fun p hp => (hparams' p hp).isLeaf.not_ends)
        (fun p hp q hq _ _ hr hr' h =>
          (hparams p hp).isLeaf.unique (hparams' q hq).isLeaf hr hr' h)
        (List.append_cancel_left h)
      obtain ⟨hbodies, h⟩ := ih hbody' (ends_closing r) (ends_closing r') (List.cons.inj h).2
      exact ⟨.function hnames hbodies s u, (List.cons.inj h).2⟩
  | calls hcallee hlists s ihcallee ihlists =>
    cases hy with
    | atom hb u =>
      rw [printed_calls_append] at h
      exact absurd h.symm (hb.ne_opening _ _)
    | function _ _ u =>
      rw [printed_function_append, printed_calls_append] at h
      exact absurd h.symm fn_ne_call
    | calls hcallee' hlists' u =>
      rw [printed_calls_append, printed_calls_append] at h
      have hspace (list : Arguments Expr) (t : Text) : Ends (list.printed ++ t) := ends_space _
      have hstop (list : Arguments Expr) (t q : Text) : list.printed ++ t ≠ ')' :: q :=
        fun h => absurd (List.cons.inj h).1 (by decide)
      obtain ⟨hcallees, h⟩ := ihcallee hcallee' (ends_flatMap hspace _ (ends_closing r))
        (ends_flatMap hspace _ (ends_closing r')) (List.append_cancel_left h)
      obtain ⟨hrows, h⟩ := flatMap_unique (ends_closing r) (ends_closing r') hspace
        (hstop · · r') (hstop · · r) (fun l hl k hk => arguments_tells (hlists l hl)
          (hlists' k hk) fun x hx y hy => ihlists l hl x hx (hlists' k hk y hy)) h
      exact ⟨.calls hcallees hrows s u, (List.cons.inj h).2⟩

end Expr

/-! ### Scopes -/

namespace Scope

theorem printedDefinitions_eq (ds : List (Definition Scope)) :
    printedDefinitions ds = ds.flatMap Definition.printed := by
  induction ds with
  | nil => rfl
  | cons d ds ih =>
    have hcons : printedDefinitions (d :: ds) =
        " (def ".toList ++ d.name ++ ' ' :: d.body.printed ++ ')' :: printedDefinitions ds := rfl
    rw [hcons, ih, List.flatMap_cons, Definition.printed_append]
    simp

theorem printed_append (ds : List (Definition Scope)) (result : Expr) (span : Span) (r : Text) :
    printed ⟨ds, result, span⟩ ++ r =
      "(prog".toList ++ (ds.flatMap Definition.printed ++ ' ' :: (result.printed ++ ')' :: r)) := by
  have hprinted : printed ⟨ds, result, span⟩ =
      "(prog".toList ++ printedDefinitions ds ++ ' ' :: result.printed ++ [')'] := rfl
  simp [hprinted, printedDefinitions_eq]

/-- The result of a scope is not printed like a definition. -/
theorem def_ne_result {x : Expr} (hx : x.Writable) (d : Definition Scope) (r r' : Text) :
    d.printed ++ r ≠ ' ' :: (x.printed ++ r') := by
  rw [Definition.printed_append]
  intro h
  have h := (List.cons.inj h).2
  cases hx with
  | atom ha s => exact ha.ne_opening _ _ h.symm
  | function _ _ s =>
    rw [Expr.printed_function_append] at h
    exact absurd (List.head_eq_of_cons_eq (List.cons.inj h).2) (by decide)
  | calls _ _ s =>
    rw [Expr.printed_calls_append] at h
    exact absurd (List.head_eq_of_cons_eq (List.cons.inj h).2) (by decide)

/-- A definition is told apart if its body is. -/
theorem definition_tells {d e : Definition Scope} (hd : IsWord d.name) (he : IsWord e.name)
    (htells : Tells printed Alike d.body e.body) :
    Tells Definition.printed (fun d e => d.name = e.name ∧ Alike d.body e.body) d e := by
  intro r r' hr hr' h
  rw [Definition.printed_append, Definition.printed_append] at h
  obtain ⟨hname, h⟩ := hd.isLeaf.unique he.isLeaf (ends_space _) (ends_space _)
    (List.append_cancel_left h)
  obtain ⟨hbody, h⟩ := htells (ends_closing r) (ends_closing r') (List.cons.inj h).2
  exact ⟨⟨hname, hbody⟩, (List.cons.inj h).2⟩

/-- **A scope ends where something else begins.** -/
theorem printed_tells {d e : Scope} (hd : d.Writable) (he : e.Writable) :
    Tells printed Alike d e := by
  intro r r' hr hr' h
  induction hd generalizing e r r' with
  | mk hnames hbodies hresult s ih =>
    obtain ⟨hnames', hbodies', hresult', u⟩ := he
    rw [printed_append, printed_append] at h
    obtain ⟨hrow, h⟩ := flatMap_unique (ends_space _) (ends_space _) (fun _ _ => ends_space _)
      (def_ne_result hresult' · · _) (def_ne_result hresult · · _)
      (fun d hd e he => definition_tells (hnames d hd) (hnames' e he) (ih d hd (hbodies' e he)))
      (List.append_cancel_left h)
    obtain ⟨hresults, h⟩ := Expr.printed_tells hresult hresult' (ends_closing r)
      (ends_closing r') (List.cons.inj h).2
    exact ⟨.mk (hrow.imp fun _ _ h => h.1) (hrow.imp fun _ _ h => h.2) hresults s u,
      (List.cons.inj h).2⟩

end Scope

end DrawLang
