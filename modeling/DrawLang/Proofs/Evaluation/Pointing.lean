/-
DrawLang/Proofs/Evaluation/Pointing.lean

No text makes anything crash, and all faults point into the text.  Scanning and
reading report at marked offsets, where a token starts, where a character stands
that starts none, or where the text ends.  In the tree that is read everything
starts with a token, so whatever can be blamed while the program runs is at a
marked offset too.  Marked offsets are never inside a character, so each of them
has the line and the column that a fault tells.

Main statement: `faults_point_into_the_text`.
-/
import DrawLang.Proofs.Grammar.OfText
import DrawLang.Proofs.Invocation.Positions
import DrawLang.Proofs.Steps.Termination

namespace DrawLang

variable {ε : Type}

/-- The marked offsets of one text, as the places where something can be blamed. -/
def Text.Marks (source : Text) : Text → Nat → Prop :=
  fun text offset => text = source ∧ source.Marked offset

/-- The fault tells the line and the column of a marked offset. -/
def Fault.PointsInto (f : Fault) (source : Text) : Prop :=
  ∃ offset p, source.Marked offset ∧ source.position? offset = some p ∧ f.line = p.line ∧
    f.column = p.column

theorem Stop.Pointed.pointsInto {source : Text} {s : Stop} (h : s.Pointed source.Marks) :
    ∃ f, s = .fault f ∧ f.PointsInto source := by
  have hmarks : ∀ text offset, source.Marks text offset → (text.position? offset).isSome := by
    rintro _ offset ⟨rfl, hmarked⟩
    exact hmarked.hasPosition
  obtain ⟨f, _, offset, p, rfl, ⟨rfl, hmarked⟩, hp, hline, hcolumn⟩ := h.fault hmarks
  exact ⟨f, rfl, offset, p, hmarked, hp, hline, hcolumn⟩

/-- A report at a marked offset is a fault. -/
theorem Mismatch.pointed_stop {source : Text} {r : Mismatch} (h : source.Marked r.offset) :
    (r.stop source).Pointed source.Marks :=
  ⟨source, r.offset, r.wanted, some r.got, ⟨rfl, h⟩, rfl⟩

/-! ### Evaluation -/

/-- Where nothing is bound, a program comes to a value or to a fault that points into its text. -/
theorem Machine.pointed_evaluate (source : Text) (m : Machine Code ε)
    (hm : m.environment = .empty) :
    (∃ v m', evaluate source m = .ok v m') ∨
      ∃ f m', evaluate source m = .error (.fault f) m' ∧ f.PointsInto source := by
  unfold evaluate
  rcases e : Scope.ofText source with r | program
  · obtain ⟨f, hf, hpoints⟩ := (Mismatch.pointed_stop (Scope.marked_of_ofText e)).pointsInto
    exact .inr ⟨f, m, congrArg (EStateM.Result.error · m) hf, hpoints⟩
  · have hprogram : program.Placed source.Marks source :=
      Scope.placed_of_ofText (fun offset h => ⟨rfl, h⟩) e
    have hplaced := (Task.scope source program).placed_outcome m hprogram
      (hm ▸ Environment.placed_empty)
    change (∃ v m', m.evaluator.scope source program m = .ok v m') ∨
      ∃ f m', m.evaluator.scope source program m = .error (.fault f) m' ∧ _
    unfold Task.outcome Action.outcome Task.action at hplaced
    rcases hresult : m.evaluator.scope source program m with ⟨v, m'⟩ | ⟨s, m'⟩
    · exact .inl ⟨v, m', rfl⟩
    · rw [hresult] at hplaced
      obtain ⟨f, rfl, hpoints⟩ := Stop.Pointed.pointsInto hplaced
      exact .inr ⟨f, m', rfl, hpoints⟩

/-- **No text makes anything crash, and all faults point into the text.**  What
scanning and reading report is a fault there, and so is what stops the program:
it tells the line and the column of the start of a token, of a character that
starts none, or of the end of the text.  Scanning never cuts inside a character,
reading never leaves the tokens, and what the invocations compute with, each by
its plan, stays in range: no sum with the positions of a slice overflows, nothing
goes round a row without items, and no fraction overflows unnoticed. -/
theorem faults_point_into_the_text (source : Text) (m : Machine Code ε)
    (hm : m.environment = .empty) :
    (∀ as p bs, source.pieces = as ++ p :: bs →
      source.HasPosition (Piece.texts as).bytes ∧
      source.HasPosition (Piece.texts (as ++ [p])).bytes ∧
      source.slice (Piece.texts as).bytes (Piece.texts (as ++ [p])).bytes = p.text) ∧
    (∀ r, .error r ∈ source.scan → ∃ f, r.stop source = .fault f ∧ f.PointsInto source) ∧
    (∀ ts, source.tokens? = .ok ts →
      ∃ t us, Dead.left Parsed.rest (Rule.scope nestingLimit ts) = t :: us ∧ t ∈ ts) ∧
    (∀ r, Scope.ofText source = .error r → ∃ f, r.stop source = .fault f ∧ f.PointsInto source) ∧
    ((∃ v m', Machine.evaluate source m = .ok v m') ∨
      ∃ f m', Machine.evaluate source m = .error (.fault f) m' ∧ f.PointsInto source) ∧
    (∀ (site : Site) (i : Invocation (Value Code)),
      (Action.perform site i : Action Code ε (Value Code)) = Action.settle site (i.plan site) ∧
        ∀ x, i.plan site = .ok x → i.InRange site x) := by
  refine ⟨fun as p bs h => ?_, fun r hr => ?_, fun ts hts => ?_, fun r hr => ?_,
    Machine.pointed_evaluate source m hm,
    fun site i => ⟨Action.perform_eq_settle site i, fun x => Invocation.inRange_of_plan⟩⟩
  · have hstop : source.pieces = (as ++ [p]) ++ bs := by rw [h, List.append_cons]
    exact ⟨Text.hasPosition_of_pieces h, Text.hasPosition_of_pieces hstop,
      Text.slice_of_pieces h⟩
  · exact (Mismatch.pointed_stop (Text.marked_of_scan hr)).pointsInto
  · exact Text.exists_token_of_passes hts (Grammar.passing_scope nestingLimit ts)
  · exact (Mismatch.pointed_stop (Scope.marked_of_ofText hr)).pointsInto

/-- The derivation of `"öß"(x)` on the second line of a text. -/
def callOfString : Grammar.Program :=
  .mk [] (.mk (.atom ⟨.string "öß".toList, "\"öß\"".toList, 5, 2⟩ (.string "öß".toList))
    [⟨⟨.openParen, "(".toList, 11, 2⟩,
      [.mk (.atom ⟨.identifier, "x".toList, 12, 2⟩ (.name "x".toList)) []],
      ⟨.closeParen, ")".toList, 13, 2⟩⟩])

/-- In a text where characters take several bytes, a name that is not bound and a
character that starts no token are told by lines and columns of characters.  A slice
that starts far in front of two items computes with the least word. -/
theorem faults_point_into_the_text_multibyte :
    (Machine.initial () : Machine Code Unit).environment = .empty ∧
    (∃ f m', Machine.evaluate "; ä\n\"öß\"(x)".toList (Machine.initial ()) =
        .error (.fault f) m' ∧ f.wanted = .boundName ∧ (f.line, f.column) = (2, 6) ∧
      f.PointsInto "; ä\n\"öß\"(x)".toList) ∧
    (∃ f, Mismatch.stop "\"öß\" é".toList ⟨7, .construct [.token], "é".toList⟩ = .fault f ∧
      (f.line, f.column) = (1, 6) ∧ f.PointsInto "\"öß\" é".toList) ∧
    let items : List (Value Code) := [.builtin .concat, .builtin .length]
    let far : Value Code := .number (-18446744073709551616)
    Site.integer .detached 1 far = .ok (-Number.wordBound) ∧
      Value.cutOutInWords? items (-Number.wordBound) none = some items := by
  refine ⟨rfl, ?_, ?_, ?_⟩
  · obtain ⟨-, -, -, -, hevaluate, -⟩ :=
      faults_point_into_the_text "; ä\n\"öß\"(x)".toList (Machine.initial ()) rfl
    have hread : Scope.ofText "; ä\n\"öß\"(x)".toList = .ok callOfString.tree :=
      Scope.ofText_eq_ok_iff.2 ⟨callOfString, ⟨.endOfInput, [], 14, 2⟩, by decide +kernel, rfl,
        by decide +kernel, by decide +kernel, rfl⟩
    have hresult : Machine.evaluate "; ä\n\"öß\"(x)".toList (Machine.initial ()) =
        .error (.fault ⟨.boundName, "x".toList, 2, 6⟩) (Machine.initial ()) := by
      rw [Machine.evaluate, hread]
      cbv
    rw [hresult] at hevaluate
    rcases hevaluate with ⟨v, m, ⟨⟩⟩ | ⟨f, m, ⟨⟩, hpoints⟩
    exact ⟨_, _, hresult, rfl, rfl, hpoints⟩
  · obtain ⟨-, hscan, -⟩ := faults_point_into_the_text "\"öß\" é".toList (Machine.initial ()) rfl
    have hmem : .error ⟨7, .construct [.token], "é".toList⟩ ∈ Text.scan "\"öß\" é".toList := by
      decide +kernel
    obtain ⟨f, hf, hpoints⟩ := hscan _ hmem
    have hfault : Mismatch.stop "\"öß\" é".toList ⟨7, .construct [.token], "é".toList⟩ =
        .fault ⟨.construct [.token], "é".toList, 1, 6⟩ := by decide +kernel
    cases hf.symm.trans hfault
    exact ⟨_, hf, rfl, hpoints⟩
  · intro items far
    obtain ⟨-, -, -, -, -, hrange⟩ := faults_point_into_the_text [] (Machine.initial ()) rfl
    have hplan : (Invocation.slice (.sequence items) far none).plan .detached =
        .ok (0, .ok (.sequence items)) := rfl
    have hfar : Site.integer .detached 1 far = .ok (-Number.wordBound) := rfl
    obtain ⟨items', first, last, hitems, hfirst, hlast, hresult, hwords⟩ :=
      (hrange .detached _).2 _ hplan
    cases hitems
    cases hlast
    obtain rfl := Except.ok.inj (hfar.symm.trans hfirst)
    have hcut : items = Value.cutOut items (-Number.wordBound) none := by
      injection hresult with _ hresult
      exact Value.sequence.inj (Except.ok.inj hresult)
    exact ⟨hfar, (hwords (by decide)).trans (congrArg some hcut.symm)⟩

end DrawLang
