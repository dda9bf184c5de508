/-
DrawLang/Proofs/Grammar/Passing.lean

How far the rules of the grammar read.  A rule goes from token to token and
never passes over the end of input: whether it reads something or reports that
it cannot, what is left are the last tokens of those it took, and all before
them are of other kinds (`passing_expression`, `passing_scope`).

The end of input is therefore always still there: what is left of the tokens of
a text are some of them, and a report is about the first (`exists_token_of_passes`).
-/
import DrawLang.Proofs.Grammar.Unique

namespace DrawLang

/-- Some tokens are passed over up to `rest`, none of them the end of input. -/
def Passes (ts rest : List Token) : Prop :=
  ∃ done, ts = done ++ rest ∧ ∀ t ∈ done, t.kind ≠ .endOfInput

namespace Passes

theorem refl (ts : List Token) : Passes ts ts := ⟨[], rfl, nofun⟩

theorem trans {ts us vs : List Token} (h : Passes ts us) (h' : Passes us vs) : Passes ts vs := by
  obtain ⟨done, rfl, hdone⟩ := h
  obtain ⟨done', rfl, hdone'⟩ := h'
  refine ⟨done ++ done', (List.append_assoc _ _ _).symm, ?_⟩
  exact List.forall_mem_append.2 ⟨hdone, hdone'⟩

/-- One more token is passed over in front. -/
theorem cons {t : Token} {ts rest : List Token} (ht : t.kind ≠ .endOfInput)
    (h : Passes ts rest) : Passes (t :: ts) rest := by
  obtain ⟨done, rfl, hdone⟩ := h
  exact ⟨t :: done, rfl, List.forall_mem_cons.2 ⟨ht, hdone⟩⟩

/-- A token of another kind than the end of input is passed over. -/
theorem step {k : TokenKind} {t : Token} (ht : t.kind = k) (hk : k ≠ .endOfInput)
    (ts : List Token) : Passes (t :: ts) ts :=
  .cons (ht ▸ hk) (.refl ts)

end Passes

/-- What is left where reading ends, with a result or with a report. -/
def Dead.left {α : Type} (rest : α → List Token) : Except Dead α → List Token
  | .ok a => rest a
  | .error d => d.rest

/-- Reading ends without having passed over the end of input. -/
def Passing {α : Type} (rest : α → List Token) (ts : List Token) (x : Except Dead α) : Prop :=
  Passes ts (Dead.left rest x)

theorem Passing.of_ok {α : Type} {rest : α → List Token} {ts : List Token} {x : Except Dead α}
    (h : Passing rest ts x) {a : α} (hx : x = .ok a) : Passes ts (rest a) := by
  rwa [hx] at h

theorem Passing.of_error {α : Type} {rest : α → List Token} {ts : List Token} {x : Except Dead α}
    (h : Passing rest ts x) {d : Dead} (hx : x = .error d) : Passes ts d.rest := by
  rwa [hx] at h

/-- The rule never passes over the end of input. -/
def Rule.Passing {α : Type} (r : Rule α) : Prop := ∀ ts, DrawLang.Passing Parsed.rest ts (r ts)

namespace Grammar

variable {rₑ : Rule Expr} {r : Rule Scope}

/-! ### Expressions -/

theorem passes_skip {k : TokenKind} (hk : k ≠ .endOfInput) (ts : List Token) :
    Passes ts (Rule.skip k ts) := by
  unfold Rule.skip
  split
  · split
    · rename_i t us ht
      exact .step ht hk us
    · exact .refl _
  · exact .refl _

theorem passing_expressions (hr : rₑ.Passing) (ts : List Token) :
    Passing ParsedMany.rest ts (Rule.expressions rₑ ts) := by
  fun_induction Rule.expressions rₑ ts with
  | case1 => exact .refl _
  | case2 t us hstarts d hread => exact (hr _).of_error hread
  | case3 t us hstarts e mid hlt hread d hmany ih =>
    exact ((hr _).of_ok hread).trans (ih.of_error hmany)
  | case4 t us hstarts e mid hlt hread es rest hle hmany ih =>
    exact ((hr _).of_ok hread).trans (ih.of_ok hmany)
  | case5 => exact .refl _

/-- In front of the items of a list its opening parenthesis is passed over. -/
theorem passing_items (hr : rₑ.Passing) {t : Token} (hopen : t.kind = .openParen)
    (us : List Token) : Passing ParsedMany.rest (t :: us) (Rule.expressions rₑ us) := by
  have hstep := Passes.step hopen (by decide) us
  have hitems := passing_expressions hr us
  rcases e : Rule.expressions rₑ us with d | ps
  · exact hstep.trans (hitems.of_error e)
  · exact hstep.trans (hitems.of_ok e)

theorem passing_argumentLists (hr : rₑ.Passing) (stop : Nat) (ts : List Token) :
    Passing ParsedMany.rest ts (Rule.argumentLists rₑ stop ts) := by
  fun_induction Rule.argumentLists rₑ stop ts with
  | case1 => exact .refl _
  | case2 stop t us hopen d hmany => exact (passing_items hr hopen.1 us).of_error hmany
  | case3 stop t us hopen items hlen hmany => exact (passing_items hr hopen.1 us).of_ok hmany
  | case4 stop t us hopen items u mid hlen hmany hclose d hlists ih =>
    have hitems := (passing_items hr hopen.1 us).of_ok hmany
    exact (hitems.trans (.step hclose (by decide) mid)).trans (ih.of_error hlists)
  | case5 stop t us hopen items u mid hlen hmany hclose lists rest hle hlists ih =>
    have hitems := (passing_items hr hopen.1 us).of_ok hmany
    exact (hitems.trans (.step hclose (by decide) mid)).trans (ih.of_ok hlists)
  | case6 stop t us hopen items u mid hlen hmany => exact (passing_items hr hopen.1 us).of_ok hmany
  | case7 => exact .refl _

theorem passes_params (ts : List Token) : Passes ts (Rule.params ts).rest := by
  induction ts with
  | nil => exact .refl _
  | cons t ts ih =>
    rw [Rule.params]
    split
    · rename_i ht
      exact (Passes.step ht (by decide) ts).trans ih
    · exact .refl _

theorem passing_function (hr : rₑ.Passing) (start : Nat) : (Rule.function rₑ start).Passing := by
  intro ts
  have hparams := passes_params ts
  unfold Rule.function
  rcases e : Rule.params ts with ⟨ps, - | ⟨t, us⟩, hle⟩ <;> rw [e] at hparams
  · exact hparams
  · simp only
    split
    · rename_i hclose
      have hclosed := hparams.trans (.step hclose (by decide) us)
      have hus := hclosed.trans (passes_skip (k := .arrow) (by decide) us)
      split
      · rename_i d hread
        exact hus.trans ((hr _).of_error hread)
      · rename_i body rest hlt hread
        exact hus.trans ((hr _).of_ok hread)
    · exact hparams

theorem passing_primary (hr : rₑ.Passing) : (Rule.primary rₑ).Passing := by
  rintro (- | ⟨t, us⟩)
  · exact .refl _
  · rw [Rule.primary]
    rcases hatom : t.atom? with - | a
    · simp only
      split
      · rename_i hopen
        have hstep := Passes.step hopen (by decide) us
        have hfunction := passing_function hr t.offset us
        split
        · rename_i d hread
          exact hstep.trans (hfunction.of_error hread)
        · rename_i e rest hlt hread
          exact hstep.trans (hfunction.of_ok hread)
      · exact .refl _
    · refine Passes.cons (fun hend => ?_) (.refl us)
      rw [Token.atom?, hend] at hatom
      cases hatom

theorem passing_callChain (hr : rₑ.Passing) : (Rule.callChain rₑ).Passing := by
  intro ts
  have hprimary := passing_primary hr ts
  unfold Rule.callChain
  split
  · rename_i d hread
    exact hprimary.of_error hread
  · rename_i callee mid hlt hread
    have hlists := passing_argumentLists hr callee.span.stop mid
    split
    · rename_i d hmany
      exact (hprimary.of_ok hread).trans (hlists.of_error hmany)
    · rename_i lists rest hle hmany
      exact (hprimary.of_ok hread).trans (hlists.of_ok hmany)

/-- **The rule for expressions never passes over the end of input.** -/
theorem passing_expression (levels : Nat) : (Rule.expression levels).Passing := by
  induction levels with
  | zero => exact fun ts => .refl ts
  | succ levels ih => exact passing_callChain ih

/-! ### Scopes -/

/-- In front of the body of a definition a keyword and a name are passed over, and perhaps
a colon. -/
theorem passes_head {t u : Token} (hdefine : t.kind = .define) (hname : u.kind = .identifier)
    (vs : List Token) : Passes (t :: u :: vs) (Rule.skip .colon vs) :=
  ((Passes.step hdefine (by decide) _).trans (.step hname (by decide) vs)).trans
    (passes_skip (by decide) vs)

theorem passing_definitions (hr : r.Passing) (ts : List Token) :
    Passing ParsedMany.rest ts (Rule.definitions r ts) := by
  fun_induction Rule.definitions r ts with
  | case1 => exact .refl _
  | case2 t hdefine => exact .step hdefine (by decide) []
  | case3 t hdefine u vs hname d hread =>
    exact (passes_head hdefine hname vs).trans ((hr _).of_error hread)
  | case4 t hdefine u vs hname body mid hlt hread _ d hmany ih =>
    have hbody := (passes_head hdefine hname vs).trans ((hr _).of_ok hread)
    exact hbody.trans (ih.of_error hmany)
  | case5 t hdefine u vs hname body mid hlt hread _ ds rest hle hmany ih =>
    have hbody := (passes_head hdefine hname vs).trans ((hr _).of_ok hread)
    exact hbody.trans (ih.of_ok hmany)
  | case6 t hdefine u vs => exact .step hdefine (by decide) (u :: vs)
  | case7 => exact .refl _

theorem passing_body (hr : r.Passing) (hrₑ : rₑ.Passing) : (Rule.body r rₑ).Passing := by
  intro ts
  have hdefinitions := passing_definitions hr ts
  unfold Rule.body
  split
  · rename_i d hmany
    exact hdefinitions.of_error hmany
  · rename_i ds hle hmany
    exact hdefinitions.of_ok hmany
  · rename_i ds t us hle hmany
    have hus := hdefinitions.of_ok hmany
    split
    · split
      · rename_i d hread
        exact hus.trans ((hrₑ _).of_error hread)
      · rename_i result rest hlt hread
        exact hus.trans ((hrₑ _).of_ok hread)
    · exact hus

/-- **The rule for scopes never passes over the end of input.** -/
theorem passing_scope (levels : Nat) : (Rule.scope levels).Passing := by
  induction levels with
  | zero => exact fun ts => .refl ts
  | succ levels ih => exact passing_body ih (passing_expression levels)

/-! ### Programs -/

theorem passes_of_ofTokens {ts : List Token} {d : Dead} (h : Scope.ofTokens ts = .error d) :
    Passes ts d.rest := by
  have hscope := passing_scope nestingLimit ts
  rw [Scope.ofTokens] at h
  split at h
  · rename_i d' hread
    cases h
    exact hscope.of_error hread
  · cases h
  · rename_i s t us hlt hread
    split at h
    · cases h
    · cases h
      exact hscope.of_ok hread

/-- **What is left of tokens up to an end of input are some of them**, at least one. -/
theorem exists_token_of_passes {ts rest : List Token} (h : Passes ts rest) {last : Token}
    (hmem : last ∈ ts) (hlast : last.kind = .endOfInput) : ∃ t us, rest = t :: us ∧ t ∈ ts := by
  obtain ⟨done, rfl, hdone⟩ := h
  rcases rest with - | ⟨t, us⟩
  · rw [List.append_nil] at hmem
    exact absurd hlast (hdone last hmem)
  · exact ⟨t, us, rfl, List.mem_append_right done List.mem_cons_self⟩

end Grammar

end DrawLang
