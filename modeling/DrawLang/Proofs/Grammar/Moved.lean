/-
DrawLang/Proofs/Grammar/Moved.lean

Derivations whose tokens are changed.  `map` changes all tokens of a derivation.
A change is a respacing of some tokens if it leaves their kinds and lexemes, and
if an opening parenthesis touches what is before it exactly where it did
(`Respaced`); moving all tokens by the same number of bytes is one.  A respaced
derivation is one of the respaced tokens (`Program.derives_map`).  Its tree is the
old one up to spans, which go with the tokens (`Program.relocate_tree_map`).

What follows a derivation matters only as far as it opens calls, so a derivation
is one in front of anything that opens no more of them (`Program.derives_less`), and
one by itself.
-/
import Mathlib.Data.List.Chain
import DrawLang.Proofs.Grammar.Reading
import DrawLang.Proofs.Tree.Part

namespace DrawLang.Grammar

/-! ### Changing tokens -/

mutual

/-- An expression with all tokens changed. -/
def Expression.map (f : Token → Token) : Expression → Expression
  | .mk p calls => .mk (p.map f) (callsMap f calls)

/-- A primary expression with all tokens changed. -/
def Primary.map (f : Token → Token) : Primary → Primary
  | .atom t a => .atom (f t) a
  | .function opening params closing arrow body =>
    .function (f opening) (params.map f) (f closing) (arrow.map f) (body.map f)

/-- Calls with all tokens changed. -/
def callsMap (f : Token → Token) : List (Call Expression) → List (Call Expression)
  | [] => []
  | ⟨opening, items, closing⟩ :: calls =>
    ⟨f opening, itemsMap f items, f closing⟩ :: callsMap f calls

/-- Expressions with all tokens changed. -/
def itemsMap (f : Token → Token) : List Expression → List Expression
  | [] => []
  | x :: xs => x.map f :: itemsMap f xs

end

mutual

/-- A scope with all tokens changed. -/
def Program.map (f : Token → Token) : Program → Program
  | .mk clauses result => .mk (clausesMap f clauses) (result.map f)

/-- Definitions with all tokens changed. -/
def clausesMap (f : Token → Token) : List (Clause Program) → List (Clause Program)
  | [] => []
  | ⟨keyword, name, colon, body⟩ :: clauses =>
    ⟨f keyword, f name, colon.map f, body.map f⟩ :: clausesMap f clauses

end

section

variable (f : Token → Token)

theorem toList_map (o : Option Token) : (o.map f).toList = o.toList.map f := by
  cases o <;> rfl

mutual

theorem Expression.tokens_map : (x : Expression) → (x.map f).tokens = x.tokens.map f
  | .mk p calls => by
    rw [Expression.map, Expression.tokens, Expression.tokens, List.map_append, p.tokens_map,
      callsTokens_map]

theorem Primary.tokens_map : (p : Primary) → (p.map f).tokens = p.tokens.map f
  | .atom t a => rfl
  | .function opening params closing arrow body => by
    simp only [Primary.map, Primary.tokens, List.map_append, List.map_cons, toList_map,
      body.tokens_map]

theorem callsTokens_map : (calls : List (Call Expression)) →
    callsTokens (callsMap f calls) = (callsTokens calls).map f
  | [] => rfl
  | ⟨opening, items, closing⟩ :: calls => by
    simp only [callsMap, callsTokens, List.map_append, List.map_cons, itemsTokens_map items,
      callsTokens_map calls]

theorem itemsTokens_map : (xs : List Expression) →
    itemsTokens (itemsMap f xs) = (itemsTokens xs).map f
  | [] => rfl
  | x :: xs => by
    rw [itemsMap, itemsTokens, itemsTokens, List.map_append, x.tokens_map, itemsTokens_map xs]

end

mutual

theorem Program.tokens_map : (d : Program) → (d.map f).tokens = d.tokens.map f
  | .mk clauses result => by
    rw [Program.map, Program.tokens, Program.tokens, List.map_append, clausesTokens_map,
      result.tokens_map]

theorem clausesTokens_map : (clauses : List (Clause Program)) →
    clausesTokens (clausesMap f clauses) = (clausesTokens clauses).map f
  | [] => rfl
  | ⟨keyword, name, colon, body⟩ :: clauses => by
    simp only [clausesMap, clausesTokens, List.map_append, List.map_cons, toList_map,
      body.tokens_map, clausesTokens_map clauses]

end

mutual

theorem Expression.height_map : (x : Expression) → (x.map f).height = x.height
  | .mk p calls => by
    rw [Expression.map, Expression.height, Expression.height, p.height_map, callsHeight_map]

theorem Primary.height_map : (p : Primary) → (p.map f).height = p.height
  | .atom t a => rfl
  | .function opening params closing arrow body => by
    rw [Primary.map, Primary.height, Primary.height, body.height_map]

theorem callsHeight_map : (calls : List (Call Expression)) →
    callsHeight (callsMap f calls) = callsHeight calls
  | [] => rfl
  | ⟨opening, items, closing⟩ :: calls => by
    rw [callsMap, callsHeight, callsHeight, itemsHeight_map, callsHeight_map]

theorem itemsHeight_map : (xs : List Expression) → itemsHeight (itemsMap f xs) = itemsHeight xs
  | [] => rfl
  | x :: xs => by
    rw [itemsMap, itemsHeight, itemsHeight, x.height_map, itemsHeight_map]

end

mutual

theorem Program.height_map : (d : Program) → (d.map f).height = d.height
  | .mk clauses result => by
    rw [Program.map, Program.height, Program.height, clausesHeight_map, result.height_map]

theorem clausesHeight_map : (clauses : List (Clause Program)) →
    clausesHeight (clausesMap f clauses) = clausesHeight clauses
  | [] => rfl
  | ⟨keyword, name, colon, body⟩ :: clauses => by
    rw [clausesMap, clausesHeight, clausesHeight, body.height_map, clausesHeight_map]

end

end

/-! ### First and last tokens -/

theorem Expression.exists_first (x : Expression) :
    ∃ first more, x.tokens = first :: more ∧ first.offset = x.start := by
  obtain ⟨⟨t, a⟩ | ⟨opening, params, closing, arrow, body⟩, calls⟩ := x
  · exact ⟨t, _, rfl, rfl⟩
  · exact ⟨opening, _, rfl, rfl⟩

theorem Program.exists_first (d : Program) :
    ∃ first more, d.tokens = first :: more ∧ first.offset = d.tree.span.start := by
  obtain ⟨- | ⟨⟨keyword, name, colon, body⟩, clauses⟩, result⟩ := d
  · obtain ⟨first, more, htokens, hstart⟩ := result.exists_first
    exact ⟨first, more, htokens, hstart⟩
  · exact ⟨keyword, _, rfl, rfl⟩

/-- Calls behind some tokens stop with the last token of all. -/
theorem exists_final_calls (calls : List (Call Expression)) {ts init : List Token} {final : Token}
    (h : ts = init ++ [final]) :
    ∃ init' final', ts ++ callsTokens calls = init' ++ [final'] ∧
      final'.stop = callsStop final.stop calls := by
  induction calls generalizing ts init final with
  | nil => exact ⟨init, final, by rw [callsTokens, List.append_nil, h], rfl⟩
  | cons c calls ih =>
    obtain ⟨opening, items, closing⟩ := c
    have hclosing : ts ++ (opening :: itemsTokens items ++ [closing]) =
        (ts ++ opening :: itemsTokens items) ++ [closing] := (List.append_assoc _ _ _).symm
    obtain ⟨init', final', htokens, hstop⟩ := ih hclosing
    refine ⟨init', final', ?_, hstop⟩
    rw [← htokens, callsTokens, List.append_assoc, List.append_assoc, List.singleton_append]

mutual

theorem Expression.exists_final : (x : Expression) →
    ∃ init final, x.tokens = init ++ [final] ∧ final.stop = x.stop
  | .mk p calls => by
    obtain ⟨init, final, htokens, hstop⟩ := p.exists_final
    rw [Expression.tokens, Expression.stop, ← hstop]
    exact exists_final_calls calls htokens

theorem Primary.exists_final : (p : Primary) →
    ∃ init final, p.tokens = init ++ [final] ∧ final.stop = p.stop
  | .atom t a => ⟨[], t, rfl, rfl⟩
  | .function opening params closing arrow body => by
    obtain ⟨init, final, htokens, hstop⟩ := body.exists_final
    refine ⟨opening :: params ++ closing :: arrow.toList ++ init, final, ?_, hstop⟩
    rw [Primary.tokens, htokens, ← List.append_assoc]

end

theorem Program.exists_final (d : Program) :
    ∃ init final, d.tokens = init ++ [final] ∧ final.stop = d.tree.span.stop := by
  obtain ⟨clauses, result⟩ := d
  obtain ⟨init, final, htokens, hstop⟩ := result.exists_final
  exact ⟨clausesTokens clauses ++ init, final, by rw [tokens, htokens, List.append_assoc], hstop⟩

/-- The last token of a changed row is the last one, changed. -/
theorem final_map {f : Token → Token} {ts init init' : List Token} {final final' : Token}
    (h : ts = init ++ [final]) (h' : ts.map f = init' ++ [final']) : final' = f final := by
  rw [h, List.map_append] at h'
  exact (List.singleton_inj.1 (List.append_inj' h' rfl).2).symm

/-! ### What follows a derivation -/

/-- In front of `rest'` a token opens a call only where one does in front of `rest`. -/
def OpensLess (rest rest' : List Token) : Prop :=
  ∀ stop, Touches stop rest' → Touches stop rest

theorem opensLess_nil (rest : List Token) : OpensLess rest [] := by
  rintro stop ⟨t, us, ⟨⟩, -⟩

theorem opensLess_end {last : Token} (h : last.kind = .endOfInput) (rest : List Token) :
    OpensLess rest [last] := by
  rintro stop ⟨t, us, ⟨⟩, hopen, -⟩
  exact absurd (h.symm.trans hopen) nofun

theorem opensLess_append {rest rest' : List Token} (h : OpensLess rest rest') :
    (ts : List Token) → OpensLess (ts ++ rest) (ts ++ rest')
  | [] => h
  | t :: ts => by
    rintro stop ⟨_, _, ⟨⟩, ht⟩
    exact ⟨t, ts ++ rest, rfl, ht⟩

mutual

theorem Expression.derives_less : (x : Expression) → {rest rest' : List Token} →
    OpensLess rest rest' → x.Derives rest → x.Derives rest'
  | .mk p calls, rest, rest', hrest, h => by
    rw [Expression.Derives] at h ⊢
    exact ⟨p.derives_less (opensLess_append hrest _) h.1, calls_derive_less calls hrest h.2⟩

theorem Primary.derives_less : (p : Primary) → {rest rest' : List Token} →
    OpensLess rest rest' → p.Derives rest → p.Derives rest'
  | .atom t a, rest, rest', hrest, h => by
    rw [Primary.Derives] at h ⊢
    exact h
  | .function opening params closing arrow body, rest, rest', hrest, h => by
    rw [Primary.Derives] at h ⊢
    exact ⟨h.1, h.2.1, h.2.2.1, h.2.2.2.1, body.derives_less hrest h.2.2.2.2⟩

theorem calls_derive_less : (calls : List (Call Expression)) → {rest rest' : List Token} →
    OpensLess rest rest' → {stop : Nat} → CallsDerive rest stop calls →
      CallsDerive rest' stop calls
  | [], rest, rest', hrest, stop, h => by
    rw [CallsDerive] at h ⊢
    exact fun ht => h (hrest stop ht)
  | ⟨opening, items, closing⟩ :: calls, rest, rest', hrest, stop, h => by
    rw [CallsDerive] at h ⊢
    exact ⟨h.1, h.2.1, items_derive_less items (opensLess_append hrest _) h.2.2.1, h.2.2.2.1,
      calls_derive_less calls hrest h.2.2.2.2⟩

theorem items_derive_less : (xs : List Expression) → {rest rest' : List Token} →
    OpensLess rest rest' → ItemsDerive rest xs → ItemsDerive rest' xs
  | [], rest, rest', hrest, h => trivial
  | x :: xs, rest, rest', hrest, h => by
    rw [ItemsDerive] at h ⊢
    exact ⟨x.derives_less (opensLess_append hrest _) h.1, items_derive_less xs hrest h.2⟩

end

mutual

/-- **A derivation is one in front of anything that opens no more calls.** -/
theorem Program.derives_less : (d : Program) → {rest rest' : List Token} →
    OpensLess rest rest' → d.Derives rest → d.Derives rest'
  | .mk clauses result, rest, rest', hrest, h => by
    rw [Program.Derives] at h ⊢
    exact ⟨clauses_derive_less clauses (opensLess_append hrest _) h.1,
      result.derives_less hrest h.2⟩

theorem clauses_derive_less : (clauses : List (Clause Program)) → {rest rest' : List Token} →
    OpensLess rest rest' → ClausesDerive rest clauses → ClausesDerive rest' clauses
  | [], rest, rest', hrest, h => trivial
  | ⟨keyword, name, colon, body⟩ :: clauses, rest, rest', hrest, h => by
    rw [ClausesDerive] at h ⊢
    exact ⟨h.1, h.2.1, h.2.2.1, body.derives_less (opensLess_append hrest _) h.2.2.2.1,
      clauses_derive_less clauses hrest h.2.2.2.2⟩

end

theorem Primary.derives_nil {p : Primary} {rest : List Token} (h : p.Derives rest) :
    p.Derives [] :=
  p.derives_less (opensLess_nil rest) h

theorem Expression.derives_nil {x : Expression} {rest : List Token} (h : x.Derives rest) :
    x.Derives [] :=
  x.derives_less (opensLess_nil rest) h

theorem Program.derives_nil {d : Program} {rest : List Token} (h : d.Derives rest) :
    d.Derives [] :=
  d.derives_less (opensLess_nil rest) h

/-! ### Respacing tokens -/

/-- The change leaves what the token is. -/
structure Keeps (f : Token → Token) (t : Token) : Prop where
  kind : (f t).kind = t.kind
  lexeme : (f t).lexeme = t.lexeme

/-- The change leaves what the tokens are, and which opening parentheses touch the
token before them. -/
structure Respaced (f : Token → Token) (ts : List Token) : Prop where
  keeps : ∀ t ∈ ts, Keeps f t
  touching : ts.IsChain fun t u => u.kind = .openParen →
    ((f u).offset = (f t).stop ↔ u.offset = t.stop)

variable {f : Token → Token}

theorem Keeps.atom? {t : Token} (h : Keeps f t) : (f t).atom? = t.atom? := by
  rw [Token.atom?, Token.atom?, h.kind, h.lexeme]

theorem Keeps.of_mem_map {k : TokenKind} {ts : List Token} (hts : ∀ t ∈ ts, Keeps f t)
    (h : ∀ t ∈ ts, t.kind = k) : ∀ t ∈ ts.map f, t.kind = k := by
  intro t' ht'
  obtain ⟨t, ht, rfl⟩ := List.mem_map.1 ht'
  exact (hts t ht).kind.trans (h t ht)

theorem Keeps.of_mem_option_map {k : TokenKind} {o : Option Token}
    (ho : ∀ t ∈ o.toList, Keeps f t) (h : ∀ t ∈ o, t.kind = k) : ∀ t ∈ o.map f, t.kind = k := by
  intro t' ht'
  obtain ⟨t, ht, rfl⟩ := Option.map_eq_some_iff.1 ht'
  exact (ho t (Option.mem_toList.2 ht)).kind.trans (h t ht)

namespace Respaced

theorem left {ts us : List Token} (h : Respaced f (ts ++ us)) : Respaced f ts :=
  ⟨(List.forall_mem_append.1 h.keeps).1, h.touching.left_of_append⟩

theorem right {ts us : List Token} (h : Respaced f (ts ++ us)) : Respaced f us :=
  ⟨(List.forall_mem_append.1 h.keeps).2, h.touching.right_of_append⟩

/-- A token opens a call behind a respaced token exactly if it did before. -/
theorem touches {t : Token} {ts : List Token} (h : Respaced f (t :: ts)) :
    Touches (f t).stop (ts.map f) ↔ Touches t.stop ts := by
  obtain ⟨hkeeps, htouching⟩ := h
  constructor
  · rintro ⟨u', us', hts, hopen, hoffset⟩
    obtain ⟨u, us, rfl, rfl, rfl⟩ := List.map_eq_cons_iff.1 hts
    have hkind := (hkeeps u (by simp)).kind
    have hopen' := hkind.symm.trans hopen
    exact ⟨u, us, rfl, hopen', ((List.isChain_cons_cons.1 htouching).1 hopen').1 hoffset⟩
  · rintro ⟨u, us, rfl, hopen, hoffset⟩
    have hkind := (hkeeps u (by simp)).kind
    exact ⟨f u, us.map f, rfl, hkind.trans hopen,
      ((List.isChain_cons_cons.1 htouching).1 hopen).2 hoffset⟩

end Respaced

/-! ### Respaced derivations -/

mutual

theorem Expression.derives_map : (x : Expression) → {rest : List Token} →
    Respaced f (x.tokens ++ rest) → x.Derives rest → (x.map f).Derives (rest.map f)
  | .mk p calls, rest, hf, h => by
    rw [Expression.tokens, List.append_assoc] at hf
    rw [Expression.Derives] at h
    rw [Expression.map, Expression.Derives, callsTokens_map, ← List.map_append]
    obtain ⟨init, final, htokens, hstop⟩ := p.exists_final
    obtain ⟨init', final', htokens', hstop'⟩ := (p.map f).exists_final
    rw [p.tokens_map] at htokens'
    obtain rfl := final_map htokens htokens'
    refine ⟨p.derives_map hf h.1, ?_⟩
    rw [htokens, List.append_assoc, List.singleton_append] at hf
    rw [← hstop']
    exact calls_derive_map calls hf.right (hstop ▸ h.2)

theorem Primary.derives_map : (p : Primary) → {rest : List Token} →
    Respaced f (p.tokens ++ rest) → p.Derives rest → (p.map f).Derives (rest.map f)
  | .atom t a, rest, hf, h => by
    rw [Primary.Derives] at h
    rw [Primary.map, Primary.Derives]
    exact (hf.keeps t List.mem_cons_self).atom?.trans h
  | .function opening params closing arrow body, rest, hf, h => by
    rw [Primary.tokens, List.append_assoc] at hf
    have hkeeps := hf.left.keeps
    simp only [List.forall_mem_append, List.forall_mem_cons] at hkeeps
    obtain ⟨⟨hopening, hparams⟩, hclosing, harrow⟩ := hkeeps
    rw [Primary.Derives] at h
    rw [Primary.map, Primary.Derives]
    exact ⟨hopening.kind.trans h.1, Keeps.of_mem_map hparams h.2.1, hclosing.kind.trans h.2.2.1,
      Keeps.of_mem_option_map harrow h.2.2.2.1, body.derives_map hf.right h.2.2.2.2⟩

theorem calls_derive_map : (calls : List (Call Expression)) → {rest : List Token} →
    {last : Token} → Respaced f (last :: (callsTokens calls ++ rest)) →
      CallsDerive rest last.stop calls →
        CallsDerive (rest.map f) (f last).stop (callsMap f calls)
  | [], rest, last, hf, h => by
    rw [CallsDerive] at h
    rw [callsMap, CallsDerive]
    exact fun ht => h (hf.touches.1 ht)
  | ⟨opening, items, closing⟩ :: calls, rest, last, hf, h => by
    rw [CallsDerive] at h
    obtain ⟨hopen, hoffset, hderive, hclose, hbehind⟩ := h
    have htokens : last :: (callsTokens (⟨opening, items, closing⟩ :: calls) ++ rest) =
        [last, opening] ++ (itemsTokens items ++ (closing :: callsTokens calls ++ rest)) := by
      simp [callsTokens]
    have hitems := (htokens ▸ hf).right
    obtain ⟨_, _, ⟨⟩, -, hoffset'⟩ := hf.touches.2 ⟨opening, _, rfl, hopen, hoffset⟩
    rw [callsMap, CallsDerive, callsTokens_map]
    refine ⟨(hf.keeps opening (by simp [callsTokens])).kind.trans hopen, hoffset', ?_,
      (hf.keeps closing (by simp [callsTokens])).kind.trans hclose,
      calls_derive_map calls hitems.right hbehind⟩
    have hmapped := items_derive_map items hitems hderive
    rwa [List.map_append] at hmapped

theorem items_derive_map : (xs : List Expression) → {rest : List Token} →
    Respaced f (itemsTokens xs ++ rest) → ItemsDerive rest xs →
      ItemsDerive (rest.map f) (itemsMap f xs)
  | [], rest, hf, h => trivial
  | x :: xs, rest, hf, h => by
    rw [itemsTokens, List.append_assoc] at hf
    rw [ItemsDerive] at h
    rw [itemsMap, ItemsDerive, itemsTokens_map, ← List.map_append]
    exact ⟨x.derives_map hf h.1, items_derive_map xs hf.right h.2⟩

end

mutual

/-- **Respaced tokens have the respaced derivation.** -/
theorem Program.derives_map : (d : Program) → {rest : List Token} →
    Respaced f (d.tokens ++ rest) → d.Derives rest → (d.map f).Derives (rest.map f)
  | .mk clauses result, rest, hf, h => by
    rw [Program.tokens, List.append_assoc] at hf
    rw [Program.Derives] at h
    rw [Program.map, Program.Derives, result.tokens_map, ← List.map_append]
    exact ⟨clauses_derive_map clauses hf h.1, result.derives_map hf.right h.2⟩

theorem clauses_derive_map : (clauses : List (Clause Program)) → {rest : List Token} →
    Respaced f (clausesTokens clauses ++ rest) → ClausesDerive rest clauses →
      ClausesDerive (rest.map f) (clausesMap f clauses)
  | [], rest, hf, h => trivial
  | ⟨keyword, name, colon, body⟩ :: clauses, rest, hf, h => by
    rw [clausesTokens, List.append_assoc, List.append_assoc] at hf
    have hkeeps := hf.left.keeps
    simp only [List.forall_mem_cons] at hkeeps
    obtain ⟨hkeyword, hname, hcolon⟩ := hkeeps
    rw [ClausesDerive] at h
    rw [clausesMap, ClausesDerive, clausesTokens_map, ← List.map_append]
    exact ⟨hkeyword.kind.trans h.1, hname.kind.trans h.2.1,
      Keeps.of_mem_option_map hcolon h.2.2.1, body.derives_map hf.right h.2.2.2.1,
      clauses_derive_map clauses hf.right.right h.2.2.2.2⟩

end

/-! ### Respaced trees -/

/-- The change leaves the lexeme of the token, and spans go with it: `g` takes the
ends of the changed token to where `g'` takes its own. -/
structure Carries (f : Token → Token) (g g' : Nat → Nat) (t : Token) : Prop where
  lexeme : (f t).lexeme = t.lexeme
  start : g (f t).offset = g' t.offset
  stop : g (f t).stop = g' t.stop

variable {g g' : Nat → Nat}

theorem relocate_congr {start stop start' stop' : Nat} (hstart : g start = g' start')
    (hstop : g stop = g' stop') :
    Span.relocate g ⟨start, stop⟩ = Span.relocate g' ⟨start', stop'⟩ := by
  rw [Span.relocate, Span.relocate, hstart, hstop]

theorem Carries.relocate_span {t : Token} (h : Carries f g g' t) :
    (f t).span.relocate g = t.span.relocate g' :=
  relocate_congr h.start h.stop

theorem Primary.start_map (p : Primary) (h : ∀ t ∈ p.tokens, Carries f g g' t) :
    g (p.map f).start = g' p.start := by
  rcases p with ⟨t, a⟩ | ⟨opening, params, closing, arrow, body⟩
  · exact (h t List.mem_cons_self).start
  · exact (h opening (by simp [Primary.tokens])).start

theorem Expression.start_map (x : Expression) (h : ∀ t ∈ x.tokens, Carries f g g' t) :
    g (x.map f).start = g' x.start := by
  obtain ⟨p, calls⟩ := x
  rw [Expression.tokens, List.forall_mem_append] at h
  exact p.start_map h.1

theorem Expression.stop_map (x : Expression) (h : ∀ t ∈ x.tokens, Carries f g g' t) :
    g (x.map f).stop = g' x.stop := by
  obtain ⟨init, final, htokens, hstop⟩ := x.exists_final
  obtain ⟨init', final', htokens', hstop'⟩ := (x.map f).exists_final
  rw [x.tokens_map] at htokens'
  obtain rfl := final_map htokens htokens'
  rw [← hstop', ← hstop]
  exact (h final (htokens ▸ List.mem_append_right _ List.mem_cons_self)).stop

theorem Expression.relocate_span_map (x : Expression) (h : ∀ t ∈ x.tokens, Carries f g g' t) :
    (x.map f).tree.span.relocate g = x.tree.span.relocate g' := by
  rw [Expression.span_tree, Expression.span_tree]
  exact relocate_congr (x.start_map h) (x.stop_map h)

mutual

theorem Expression.relocate_tree_map : (x : Expression) →
    (∀ t ∈ x.tokens, Carries f g g' t) → (x.map f).tree.relocate g = x.tree.relocate g'
  | .mk p [], h => by
    rw [Expression.tokens, List.forall_mem_append] at h
    rw [Expression.map, callsMap, Expression.tree, Expression.tree]
    exact p.relocate_tree_map h.1
  | .mk p (⟨opening, items, closing⟩ :: calls), h => by
    have hstop := (Expression.mk p (⟨opening, items, closing⟩ :: calls)).stop_map h
    rw [Expression.tokens, List.forall_mem_append] at h
    have hlists := relocate_callsTree_map (⟨opening, items, closing⟩ :: calls) h.2
    rw [Expression.map] at hstop ⊢
    rw [callsMap] at hlists hstop ⊢
    rw [Expression.stop, Expression.stop] at hstop
    rw [Expression.tree, Expression.tree, Expr.relocate, Expr.relocate, p.relocate_tree_map h.1,
      hlists, relocate_congr (p.start_map h.1) hstop]

theorem Primary.relocate_tree_map : (p : Primary) →
    (∀ t ∈ p.tokens, Carries f g g' t) → (p.map f).tree.relocate g = p.tree.relocate g'
  | .atom t a, h => by
    rw [Primary.tokens, List.forall_mem_singleton] at h
    rw [Primary.map, Primary.tree, Primary.tree, Expr.relocate, Expr.relocate, h.relocate_span]
  | .function opening params closing arrow body, h => by
    simp only [Primary.tokens, List.forall_mem_append, List.forall_mem_cons] at h
    obtain ⟨⟨⟨hopening, hparams⟩, -⟩, hbody⟩ := h
    have hnames : (((params.map f).map fun t => (⟨t.lexeme, t.span⟩ : Param)).map
        (Param.relocate g)) = (params.map fun t => ⟨t.lexeme, t.span⟩).map (Param.relocate g') := by
      rw [List.map_map, List.map_map, List.map_map]
      refine List.map_congr_left fun t ht => ?_
      simp only [Function.comp_apply, Param.relocate, (hparams t ht).lexeme,
        (hparams t ht).relocate_span]
    rw [Primary.map, Primary.tree, Primary.tree, Expr.relocate, Expr.relocate, hnames,
      body.relocate_tree_map hbody, relocate_congr hopening.start (body.stop_map hbody)]

theorem relocate_callsTree_map : (calls : List (Call Expression)) →
    (∀ t ∈ callsTokens calls, Carries f g g' t) →
      relocateLists g (callsTree (callsMap f calls)) = relocateLists g' (callsTree calls)
  | [], h => rfl
  | ⟨opening, items, closing⟩ :: calls, h => by
    simp only [callsTokens, List.forall_mem_append, List.forall_mem_cons] at h
    obtain ⟨⟨hopening, hitems⟩, hclosing, hcalls⟩ := h
    rw [callsMap, callsTree, callsTree, relocateLists, relocateLists,
      relocate_itemsTree_map items hitems, relocate_callsTree_map calls hcalls,
      relocate_congr hopening.start hclosing.stop]

theorem relocate_itemsTree_map : (xs : List Expression) →
    (∀ t ∈ itemsTokens xs, Carries f g g' t) →
      relocateItems g (itemsTree (itemsMap f xs)) = relocateItems g' (itemsTree xs)
  | [], h => rfl
  | x :: xs, h => by
    rw [itemsTokens, List.forall_mem_append] at h
    rw [itemsMap, itemsTree, itemsTree, relocateItems, relocateItems, x.relocate_tree_map h.1,
      relocate_itemsTree_map xs h.2]

end

theorem Program.stop_map (d : Program) (h : ∀ t ∈ d.tokens, Carries f g g' t) :
    g (d.map f).stop = g' d.stop := by
  obtain ⟨clauses, result⟩ := d
  rw [Program.tokens, List.forall_mem_append] at h
  exact result.stop_map h.2

theorem scopeStart_map (clauses : List (Clause Program)) (result : Expression)
    (hclauses : ∀ t ∈ clausesTokens clauses, Carries f g g' t)
    (hresult : ∀ t ∈ result.tokens, Carries f g g' t) :
    g (scopeStart (clausesMap f clauses) (result.map f)) = g' (scopeStart clauses result) := by
  rcases clauses with - | ⟨⟨keyword, name, colon, body⟩, clauses⟩
  · exact result.start_map hresult
  · exact (hclauses keyword (by simp [clausesTokens])).start

mutual

/-- **The tree of a respaced derivation is the old one up to spans**, which go with the tokens. -/
theorem Program.relocate_tree_map : (d : Program) → (∀ t ∈ d.tokens, Carries f g g' t) →
    (d.map f).tree.relocate g = d.tree.relocate g'
  | .mk clauses result, h => by
    rw [Program.tokens, List.forall_mem_append] at h
    rw [Program.map, Program.tree, Program.tree, Scope.relocate, Scope.relocate,
      relocate_clausesTree_map clauses h.1, result.relocate_tree_map h.2,
      relocate_congr (scopeStart_map clauses result h.1 h.2) (result.stop_map h.2)]

theorem relocate_clausesTree_map : (clauses : List (Clause Program)) →
    (∀ t ∈ clausesTokens clauses, Carries f g g' t) →
      relocateDefinitions g (clausesTree (clausesMap f clauses)) =
        relocateDefinitions g' (clausesTree clauses)
  | [], h => rfl
  | ⟨keyword, name, colon, body⟩ :: clauses, h => by
    simp only [clausesTokens, List.forall_mem_append, List.forall_mem_cons] at h
    obtain ⟨⟨⟨hkeyword, hname, -⟩, hbody⟩, hclauses⟩ := h
    rw [clausesMap, clausesTree, clausesTree, relocateDefinitions, relocateDefinitions,
      hname.lexeme, hname.relocate_span, body.relocate_tree_map hbody,
      relocate_clausesTree_map clauses hclauses,
      relocate_congr hkeyword.start (body.stop_map hbody)]

end

/-! ### Moving tokens -/

/-- The change moves the token by some bytes, back and forth, and leaves what it is. -/
structure Moves (f : Token → Token) (back forth : Nat) (t : Token) : Prop extends Keeps f t where
  offset : (f t).offset + back = t.offset + forth

variable {back forth : Nat}

theorem Moves.stop {t : Token} (h : Moves f back forth t) :
    (f t).stop + back = t.stop + forth := by
  have hoffset := h.offset
  rw [Token.stop, Token.stop, h.lexeme]
  omega

/-- Spans go with a token that is moved. -/
theorem Moves.carries {t : Token} (h : Moves f back forth t) :
    Carries f (· + back) (· + forth) t :=
  ⟨h.lexeme, h.offset, h.stop⟩

/-- Tokens that are moved by the same number of bytes are respaced. -/
theorem Moves.respaced {ts : List Token} (h : ∀ t ∈ ts, Moves f back forth t) : Respaced f ts := by
  refine ⟨fun t ht => (h t ht).toKeeps, List.Pairwise.isChain ?_⟩
  refine List.pairwise_of_forall_mem_list fun t ht u hu _ => ?_
  have hstop := (h t ht).stop
  have hoffset := (h u hu).offset
  omega

/-- By themselves moved tokens have the moved derivation. -/
theorem Expression.derives_moved (x : Expression) (hf : ∀ t ∈ x.tokens, Moves f back forth t)
    (h : x.Derives []) : (x.map f).Derives [] := by
  refine x.derives_map ?_ h
  rw [List.append_nil]
  exact Moves.respaced hf

theorem Program.derives_moved (d : Program) (hf : ∀ t ∈ d.tokens, Moves f back forth t)
    (h : d.Derives []) : (d.map f).Derives [] := by
  refine d.derives_map ?_ h
  rw [List.append_nil]
  exact Moves.respaced hf

end DrawLang.Grammar
