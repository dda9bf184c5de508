/-
DrawLang/Proofs/Grammar/Continued.lean

What is stuck can be continued.  Wherever reading is stuck, each construct that is
wanted there would do: put a token in place that such a construct begins with, and
the phrase can be completed (`Stuck.continued`).  Besides that token a name and a
closing parenthesis are all that is ever needed, so what follows can stand anywhere:
it opens no calls.

A sentence of the grammar is a row of tokens up to the end of input that has a
derivation, however deep it nests; a row is viable if a sentence starts with it.
-/
import DrawLang.Proofs.Grammar.Moved
import DrawLang.Proofs.Grammar.Stuck

namespace DrawLang

/-- The construct can begin with the token. -/
def Construct.BegunBy (t : Token) : Construct → Prop
  | definition => t.kind = .define
  | expression => t.startsExpression = true
  | identifier => t.kind = .identifier
  | closeParen => t.kind = .closeParen
  | endOfInput => t.kind = .endOfInput
  | token | closeQuote => False

namespace Grammar

/-! ### Sentences -/

/-- The tokens are those of a program and the end of input. -/
def Sentence (ts : List Token) : Prop :=
  ∃ (d : Program) (last : Token), d.tokens ++ [last] = ts ∧ last.kind = .endOfInput ∧
    d.Derives [last]

/-- Some sentence starts with the tokens. -/
def Viable (ts : List Token) : Prop := ∃ more, Sentence (ts ++ more)

theorem Viable.of_append {ts us : List Token} (h : Viable (ts ++ us)) : Viable ts := by
  obtain ⟨more, hmore⟩ := h
  exact ⟨us ++ more, by rwa [← List.append_assoc]⟩

/-- With the end of input a row is viable only if it is a sentence. -/
theorem viable_end_iff {ts : List Token} {last : Token} (hlast : last.kind = .endOfInput) :
    Viable (ts ++ [last]) ↔ Sentence (ts ++ [last]) := by
  constructor
  · rintro ⟨more, d, last', htokens, hlast', hd⟩
    rcases List.eq_nil_or_concat more with rfl | ⟨init, final, rfl⟩
    · rw [List.append_nil] at htokens
      exact ⟨d, last', htokens, hlast', hd⟩
    -- the end of input would be a token of the derivation
    · rw [List.concat_eq_append, ← List.append_assoc] at htokens
      obtain ⟨hinit, -⟩ := List.append_inj' htokens rfl
      refine absurd hlast (d.tokens_ne_end hd last ?_)
      rw [hinit]
      simp
  · exact fun h => ⟨[], by rwa [List.append_nil]⟩

/-! ### What opens no calls -/

/-- The tokens do not start with an opening parenthesis. -/
def Quiet (ts : List Token) : Prop := Ahead (·.kind = .openParen) ts

section

variable {t : Token} {ts rest rest' : List Token}

theorem quiet_cons (h : t.kind ≠ .openParen) (ts : List Token) : Quiet (t :: ts) := ahead_cons h ts

theorem Quiet.not_touches (h : Quiet rest) (stop : Nat) : ¬ Touches stop rest := by
  rintro ⟨t, us, hrest, hopen, -⟩
  exact h t us hrest hopen

theorem Quiet.opensLess (h : Quiet rest') (rest : List Token) : OpensLess rest rest' :=
  fun stop ht => absurd ht (h.not_touches stop)

/-- What quiet tokens continue opens no more calls than it did. -/
theorem Quiet.opensLess_append (h : Quiet rest') (done : List Token) :
    OpensLess (done ++ rest) (done ++ rest') :=
  Grammar.opensLess_append (h.opensLess rest) done

end

/-! ### The least phrases -/

/-- A name. -/
def nameToken : Token := ⟨.identifier, ['x'], 0, 1⟩

/-- A closing parenthesis. -/
def closingToken : Token := ⟨.closeParen, [')'], 0, 1⟩

/-- An expression of one token. -/
def Expression.single (t : Token) (a : Atom) : Expression := .mk (.atom t a) []

/-- The expression of one name. -/
def Expression.named : Expression := .single nameToken (.name ['x'])

/-- The scope of one name. -/
def Program.named : Program := .mk [] .named

theorem Expression.single_derives {t : Token} {a : Atom} (h : t.atom? = some a)
    {rest : List Token} (hrest : Quiet rest) : (Expression.single t a).Derives rest :=
  ⟨h, hrest.not_touches _⟩

theorem Expression.named_derives {rest : List Token} (hrest : Quiet rest) :
    Expression.named.Derives rest :=
  single_derives rfl hrest

theorem Program.named_derives {rest : List Token} (hrest : Quiet rest) :
    Program.named.Derives rest :=
  ⟨trivial, Expression.named_derives hrest⟩

theorem quiet_name (ts : List Token) : Quiet (nameToken :: ts) :=
  quiet_cons (by simp [nameToken]) ts

theorem quiet_closing {t : Token} (h : t.kind = .closeParen) (ts : List Token) :
    Quiet (t :: ts) :=
  quiet_cons (by simp [h]) ts

/-- A token that begins an expression and opens nothing is one by itself. -/
theorem exists_atom {t : Token} (h : t.startsExpression = true) (hopen : t.kind ≠ .openParen) :
    ∃ a, t.atom? = some a := by
  rw [Token.startsExpression, decide_eq_false hopen, Bool.or_false] at h
  exact Option.isSome_iff_exists.1 h

/-- A function without calls behind it is derived where its body is. -/
theorem function_derives {opening closing : Token} {ps : List Token} {arrow : Option Token}
    {x : Expression} {rest : List Token} (hopen : opening.kind = .openParen)
    (hps : ∀ t ∈ ps, t.kind = .identifier) (hclose : closing.kind = .closeParen)
    (harrow : ∀ t ∈ arrow, t.kind = .arrow) (hrest : Quiet rest) (hx : x.Derives rest) :
    (Expression.mk (.function opening ps closing arrow x) []).Derives rest :=
  ⟨⟨hopen, hps, hclose, harrow, hx⟩, hrest.not_touches _⟩

/-! ### Continuing -/

/-- The phrase can be completed with the token in place, in front of anything quiet. -/
def Continues (phrase : Phrase) (done : List Token) (t : Token) : Prop :=
  ∃ more, ∀ rest, Quiet rest → phrase.Derives (done ++ t :: more) rest

section

variable {rest done : List Token} {u : Token}

/-- An expression can be completed where arguments want one. -/
theorem continues_item (h : Continues .expression done u) : Continues .arguments done u := by
  obtain ⟨more, hmore⟩ := h
  refine ⟨more ++ [closingToken], fun rest hrest => ?_⟩
  obtain ⟨x, htokens, hx⟩ := hmore (closingToken :: rest) (quiet_closing rfl rest)
  refine ⟨[x], closingToken, ?_, ⟨hx, trivial⟩, rfl⟩
  simp [itemsTokens, htokens]

theorem continues_itemBefore (hu : u.kind ≠ .openParen) {x : Expression}
    (hx : x.Derives (done ++ rest)) (h : Continues .arguments done u) :
    Continues .arguments (x.tokens ++ done) u := by
  obtain ⟨more, hmore⟩ := h
  refine ⟨more, fun rest' hrest => ?_⟩
  obtain ⟨xs, closing, htokens, hxs, hclose⟩ := hmore rest' hrest
  refine ⟨x :: xs, closing, ?_, ⟨?_, hxs⟩, hclose⟩
  · rw [itemsTokens, List.append_assoc, htokens, List.append_assoc]
  · rw [List.append_cons, htokens, List.append_assoc]
    exact x.derives_less ((quiet_cons hu _).opensLess_append done) hx

theorem continues_call {opening : Token} (hopen : opening.kind = .openParen)
    (h : Continues .arguments done u) : Continues (.calls opening.offset) (opening :: done) u := by
  obtain ⟨more, hmore⟩ := h
  refine ⟨more, fun rest hrest => ?_⟩
  obtain ⟨xs, closing, htokens, hxs, hclose⟩ := hmore rest hrest
  refine ⟨[⟨opening, xs, closing⟩], ?_, hopen, rfl, hxs, hclose, hrest.not_touches _⟩
  rw [callsTokens, callsTokens, List.cons_append, htokens, List.cons_append]

theorem continues_callBefore {opening closing : Token} {xs : List Expression}
    (hopen : opening.kind = .openParen) (hitems : ItemsDerive (closing :: (done ++ rest)) xs)
    (hclose : closing.kind = .closeParen) (h : Continues (.calls closing.stop) done u) :
    Continues (.calls opening.offset) (opening :: (itemsTokens xs ++ closing :: done)) u := by
  obtain ⟨more, hmore⟩ := h
  refine ⟨more, fun rest' hrest => ?_⟩
  obtain ⟨calls, htokens, hcalls⟩ := hmore rest' hrest
  refine ⟨⟨opening, xs, closing⟩ :: calls, ?_, hopen, rfl, ?_, hclose, hcalls⟩
  · simp [callsTokens, htokens]
  · exact items_derive_less xs ((quiet_closing hclose _).opensLess _) hitems

theorem continues_inResult (h : Continues .expression done u) : Continues .scope done u := by
  obtain ⟨more, hmore⟩ := h
  refine ⟨more, fun rest hrest => ?_⟩
  obtain ⟨x, htokens, hx⟩ := hmore rest hrest
  exact ⟨.mk [] x, htokens, trivial, hx⟩

theorem continues_inBody {keyword name : Token} {colon : Option Token}
    (hdefine : keyword.kind = .define) (hname : name.kind = .identifier)
    (hcolon : ∀ t ∈ colon, t.kind = .colon) (h : Continues .scope done u) :
    Continues .scope (keyword :: name :: (colon.toList ++ done)) u := by
  obtain ⟨more, hmore⟩ := h
  refine ⟨more ++ [nameToken], fun rest hrest => ?_⟩
  obtain ⟨d, htokens, hd⟩ := hmore (nameToken :: rest) (quiet_name rest)
  refine ⟨.mk [⟨keyword, name, colon, d⟩] .named, ?_,
    ⟨hdefine, hname, hcolon, hd, trivial⟩, Expression.named_derives hrest⟩
  simp [Program.tokens, clausesTokens, htokens, Expression.tokens, Expression.named,
    Expression.single, Primary.tokens, callsTokens]

theorem continues_clauseBefore (hu : u.kind ≠ .openParen) {keyword name : Token}
    {colon : Option Token} {d : Program} (hdefine : keyword.kind = .define)
    (hname : name.kind = .identifier) (hcolon : ∀ t ∈ colon, t.kind = .colon)
    (hd : d.Derives (done ++ rest)) (h : Continues .scope done u) :
    Continues .scope (keyword :: name :: (colon.toList ++ (d.tokens ++ done))) u := by
  obtain ⟨more, hmore⟩ := h
  refine ⟨more, fun rest' hrest => ?_⟩
  obtain ⟨⟨clauses, x⟩, htokens, hclauses, hx⟩ := hmore rest' hrest
  rw [Program.tokens] at htokens
  refine ⟨.mk (⟨keyword, name, colon, d⟩ :: clauses) x, ?_,
    ⟨hdefine, hname, hcolon, ?_, hclauses⟩, hx⟩
  · simp only [Program.tokens, clausesTokens, List.cons_append, List.append_assoc, htokens]
  · rw [← List.append_assoc, htokens, List.append_assoc]
    exact d.derives_less ((quiet_cons hu _).opensLess_append done) hd

end

/-- **Where reading is stuck, each construct that is wanted can follow.**  The phrase can be
completed with any token in place that such a construct begins with and that opens nothing. -/
theorem Stuck.continued {rest done : List Token} {phrase : Phrase} {cs : List Construct}
    (h : Stuck rest phrase done cs) {c : Construct} (hc : c ∈ cs) {u : Token}
    (hbegun : c.BegunBy u) (hu : u.kind ≠ .openParen) : Continues phrase done u := by
  induction h with
  | primary =>
    obtain rfl := List.mem_singleton.1 hc
    obtain ⟨a, ha⟩ := exists_atom hbegun hu
    exact ⟨[], fun rest hrest => ⟨.single u a, rfl, Expression.single_derives ha hrest⟩⟩
  | @params opening ps hopen hps =>
    have harrow : ∀ t ∈ (none : Option Token), t.kind = .arrow := nofun
    simp only [List.mem_cons, List.not_mem_nil, or_false] at hc
    rcases hc with rfl | rfl
    · have hps' : ∀ t ∈ ps ++ [u], t.kind = .identifier :=
        List.forall_mem_append.2 ⟨hps, List.forall_mem_singleton.2 hbegun⟩
      refine ⟨[closingToken, nameToken], fun rest hrest => ⟨_, ?_,
        function_derives hopen hps' (show closingToken.kind = .closeParen from rfl) harrow hrest
          (Expression.named_derives hrest)⟩⟩
      simp [Expression.tokens, Primary.tokens, callsTokens, Expression.named, Expression.single]
    · refine ⟨[nameToken], fun rest hrest => ⟨_, ?_,
        function_derives hopen hps hbegun harrow hrest (Expression.named_derives hrest)⟩⟩
      simp [Expression.tokens, Primary.tokens, callsTokens, Expression.named, Expression.single]
  | function hopen hps hclose harrow _ _ ih =>
    obtain ⟨more, hmore⟩ := ih hc
    refine ⟨more, fun rest hrest => ?_⟩
    obtain ⟨x, htokens, hx⟩ := hmore rest hrest
    refine ⟨_, ?_, function_derives hopen hps hclose harrow hrest hx⟩
    simp [Expression.tokens, Primary.tokens, callsTokens, htokens]
  | @called p done _ hp _ ih =>
    obtain ⟨more, hmore⟩ := ih hc
    refine ⟨more, fun rest hrest => ?_⟩
    obtain ⟨calls, htokens, hcalls⟩ := hmore rest hrest
    refine ⟨.mk p calls, ?_, ?_, hcalls⟩
    · rw [Expression.tokens, htokens, List.append_assoc]
    · rw [htokens, List.append_assoc]
      exact p.derives_less ((quiet_cons hu _).opensLess_append done) hp
  | arguments =>
    simp only [List.mem_cons, List.not_mem_nil, or_false] at hc
    rcases hc with rfl | rfl
    · obtain ⟨a, ha⟩ := exists_atom hbegun hu
      refine continues_item ⟨[], fun rest hrest => ?_⟩
      exact ⟨.single u a, rfl, Expression.single_derives ha hrest⟩
    · exact ⟨[], fun rest hrest => ⟨[], u, rfl, trivial, hbegun⟩⟩
  | item _ _ ih => exact continues_item (ih hc)
  | itemBefore hx _ ih => exact continues_itemBefore hu hx (ih hc)
  | call hopen _ ih => exact continues_call hopen (ih hc)
  | callBefore hopen hitems hclose _ ih =>
    exact continues_callBefore hopen hitems hclose (ih hc)
  | result =>
    simp only [List.mem_cons, List.not_mem_nil, or_false] at hc
    rcases hc with rfl | rfl
    · refine ⟨[nameToken, nameToken, nameToken], fun rest hrest => ?_⟩
      refine ⟨.mk [⟨u, nameToken, none, .named⟩] .named, rfl, ?_, Expression.named_derives hrest⟩
      exact ⟨hbegun, rfl, nofun, Program.named_derives (quiet_name _), trivial⟩
    · obtain ⟨a, ha⟩ := exists_atom hbegun hu
      refine continues_inResult ⟨[], fun rest hrest => ?_⟩
      exact ⟨.single u a, rfl, Expression.single_derives ha hrest⟩
  | inResult _ _ ih => exact continues_inResult (ih hc)
  | @unnamed keyword hdefine =>
    obtain rfl := List.mem_singleton.1 hc
    refine ⟨[nameToken, nameToken], fun rest hrest => ?_⟩
    refine ⟨.mk [⟨keyword, u, none, .named⟩] .named, rfl, ?_, Expression.named_derives hrest⟩
    exact ⟨hdefine, hbegun, nofun, Program.named_derives (quiet_name _), trivial⟩
  | inBody hdefine hname hcolon _ _ ih => exact continues_inBody hdefine hname hcolon (ih hc)
  | clauseBefore hdefine hname hcolon hd _ ih =>
    exact continues_clauseBefore hu hdefine hname hcolon hd (ih hc)

/-- A row that continues a scope is viable. -/
theorem Continues.viable {done : List Token} {t : Token} (h : Continues .scope done t) :
    Viable (done ++ [t]) := by
  obtain ⟨more, hmore⟩ := h
  obtain ⟨d, htokens, hd⟩ := hmore [⟨.endOfInput, [], 0, 1⟩] (quiet_cons (by simp) [])
  exact ⟨more ++ [⟨.endOfInput, [], 0, 1⟩], d, _, by simp [htokens], rfl, hd⟩

end Grammar

end DrawLang
