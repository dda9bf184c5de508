/-
DrawLang/Proofs/CommandLine/Codes.lean

Exit codes.  What scanning and reading report is always wrong with the form of the text
(`Text.fault_of_scan`, `Scope.fault_of_ofText`), and what goes wrong with a program while
it runs never is (`Machine.kind_of_run`, `Machine.kind_of_apply`).  So `run`, which only
looks at the kind of a fault, exits with 65 just where `parse` does, and with 70 where a
program was read and failed.

Main statement: `commands_agree`.
-/
import DrawLang.CommandLine
import DrawLang.Proofs.Evaluation.Pointing
import DrawLang.Proofs.Evaluation.Requests

namespace DrawLang

variable {ε : Type}

/-! ### Kinds of faults -/

theorem Mismatch.fault_of_marked {source : Text} {r : Mismatch} (h : source.Marked r.offset)
    (hkind : r.wanted.kind = .parse) : ∃ f, r.stop source = .fault f ∧ f.kind = .parse := by
  obtain ⟨f, hf, -⟩ := (Mismatch.pointed_stop h).pointsInto
  have hof : (r.stop source).IsOf [.parse] := Stop.isOf_at _ _ _ (List.mem_singleton.2 hkind)
  exact ⟨f, hf, List.mem_singleton.1 (hof f hf)⟩

/-- **What scanning reports is wrong with the form of the text.** -/
theorem Text.fault_of_scan {source : Text} {r : Mismatch} (h : .error r ∈ source.scan) :
    ∃ f, r.stop source = .fault f ∧ f.kind = .parse :=
  Mismatch.fault_of_marked (marked_of_scan h) (kind_of_scan h)

/-- **What reading reports is wrong with the form of the text.** -/
theorem Scope.fault_of_ofText {source : Text} {r : Mismatch} (h : ofText source = .error r) :
    ∃ f, r.stop source = .fault f ∧ f.kind = .parse :=
  Mismatch.fault_of_marked (marked_of_ofText h) (kind_of_ofText h)

/-- The form of a text is no mistake that evaluation comes to. -/
theorem ne_parse_of_mem {kind : FaultKind} (h : kind ∈ .interruption :: mistakes) :
    kind ≠ .parse := by
  rintro rfl
  exact absurd h (by decide)

namespace Machine

variable {m m' : Machine Code ε} {f : Fault}

/-- **What goes wrong with a program that runs is not its form.** -/
theorem kind_of_run {program : Scope} {source : Text}
    (h : run program source m = .error (.fault f) m') : f.kind ≠ .parse :=
  ne_parse_of_mem ((heeds_run program source).kind h)

/-- **What goes wrong with a value that is called is not the form of a text.** -/
theorem kind_of_apply {callee : Value Code} {args : List (Value Code)}
    (h : apply callee args m = .error (.fault f) m') : f.kind ≠ .parse :=
  ne_parse_of_mem ((heeds_apply callee args).kind h)

end Machine

/-! ### Responses -/

namespace CommandLine

variable {source : Text}

theorem respond_of_read {read : Text → Except Unreadable Text} {file : Text}
    (h : read file = .ok source) (command : Command) (log : Bool) :
    respond ⟨command, some file, log⟩ read = respondTo source command := by
  simp only [respond, h]

/-- A text that is no program gets one response from `parse` and `run`. -/
theorem responses_of_error {r : Mismatch} {f : Fault} (h : Scope.ofText source = .error r)
    (hf : r.stop source = .fault f) (hkind : f.kind = .parse) (json : Bool) :
    parseText source = ⟨65, [], line f.display⟩ ∧
      runText json source = ⟨65, [], line f.display⟩ := by
  constructor
  · simp only [parseText, h, hf, stopped]
  · have hresult : Machine.evaluate source (Machine.initial ()) =
        .error (.fault f) (Machine.initial ()) := by
      rw [Machine.evaluate, h, ← hf]
      rfl
    simp only [runText, hresult, stopped, faultCode, if_pos hkind]

/-- A program gets another response than a text that is none: from `parse` that it is one,
and from `run` its value or what went wrong with it. -/
theorem responses_of_ok {program : Scope} (h : Scope.ofText source = .ok program) (json : Bool) :
    (parseText source).code = 0 ∧
      ((∃ v m', Machine.evaluate source (Machine.initial ()) = .ok v m' ∧
          (runText json source).code = 0) ∨
        ∃ f m', Machine.evaluate source (Machine.initial ()) = .error (.fault f) m' ∧
          (runText json source).code = 70) := by
  refine ⟨by rw [parseText, h], ?_⟩
  rcases Machine.pointed_evaluate source (Machine.initial ()) rfl with
    ⟨v, m', e⟩ | ⟨f, m', e, -⟩
  · exact .inl ⟨v, m', e, by rw [runText, e]⟩
  · refine .inr ⟨f, m', e, ?_⟩
    have hrun : Machine.run program source (Machine.initial ()) = .error (.fault f) m' := by
      rw [← e, Machine.evaluate, h]
    simp only [runText, e, stopped, faultCode, if_neg (Machine.kind_of_run hrun)]

/-- Where `tokenize` exits with 65 there is a first report, which is what reading reports. -/
theorem exists_first_of_code (h : (tokenizeText source).code = 65) :
    ∃ (ts : List Token) (r : Mismatch) (rest : List Scanned),
      source.scan = ts.map .ok ++ .error r :: rest ∧ Scope.ofText source = .error r := by
  rcases e : source.tokens? with r | ts
  · obtain ⟨ts, rest, hscan⟩ := Text.exists_first_of_mapM_scanned_eq_error e
    exact ⟨ts, r, rest, hscan, by rw [Scope.ofText, e]⟩
  · have hall : (source.scan.all fun i => i.isOk) = true := by
      rw [Text.mapM_scanned_eq_ok e, List.all_map]
      exact List.all_eq_true.2 fun _ _ => rfl
    rw [tokenizeText, hall] at h
    cases h

/-- What is reported first is printed first. -/
theorem err_tokenizeText {ts : List Token} {r : Mismatch} {rest : List Scanned} {f : Fault}
    (hscan : source.scan = ts.map .ok ++ .error r :: rest) (hf : r.stop source = .fault f) :
    (tokenizeText source).err =
      line f.display ++ (rest.map (tokenLines source)).flatMap Prod.snd := by
  have htokens : (ts.map (tokenLines source ∘ Except.ok)).flatMap Prod.snd = [] := by
    rw [List.flatMap_eq_nil_iff]
    rintro _ hmem
    obtain ⟨t, -, rfl⟩ := List.mem_map.1 hmem
    rfl
  have hfirst : tokenLines source (.error r) = ([], line f.display) := by
    rw [tokenLines, hf]
  show (source.scan.map (tokenLines source)).flatMap Prod.snd = _
  rw [hscan, List.map_append, List.map_map, List.map_cons, hfirst, List.flatMap_append, htokens]
  rfl

end CommandLine

open CommandLine

/-- **Faults in the form of a text and mistakes of programs never mix, so the commands
agree.**  Scanning and reading report nothing but faults in the form of the text, and what
goes wrong with a program that runs, or with a value that is called, never is one.  So for a
file that can be read `run` exits with 65 exactly if `parse` does, with the same report, and
with 70 exactly if `parse` accepts the program but evaluating it fails.  If `tokenize` exits
with 65 then so do both, and what they report is what `tokenize` reports first. -/
theorem commands_agree {read : Text → Except Unreadable Text} {file source : Text}
    (hread : read file = .ok source) (log json : Bool) :
    (∀ r, .error r ∈ source.scan → ∃ f, r.stop source = .fault f ∧ f.kind = .parse) ∧
    (∀ r, Scope.ofText source = .error r → ∃ f, r.stop source = .fault f ∧ f.kind = .parse) ∧
    (∀ (m : Machine Code ε) program text f m',
      Machine.run program text m = .error (.fault f) m' → f.kind ≠ .parse) ∧
    (∀ (m : Machine Code ε) callee args f m',
      Machine.apply callee args m = .error (.fault f) m' → f.kind ≠ .parse) ∧
    let tokenize := respond ⟨.tokenize, some file, log⟩ read
    let parse := respond ⟨.parse, some file, log⟩ read
    let run := respond ⟨.run json, some file, log⟩ read
    (run.code = 65 ↔ parse.code = 65) ∧
    (run.code = 65 → run.err = parse.err) ∧
    (run.code = 70 ↔ parse.code = 0 ∧
      ∃ stop m', Machine.evaluate source (Machine.initial ()) = .error stop m') ∧
    (tokenize.code = 65 → run.code = 65 ∧ parse.code = 65 ∧
      ∃ (ts : List Token) (r : Mismatch) (rest : List Scanned) (f : Fault),
        source.scan = ts.map .ok ++ .error r :: rest ∧ r.stop source = .fault f ∧
        run.err = line f.display ∧ parse.err = line f.display ∧
        tokenize.err = line f.display ++ (rest.map (tokenLines source)).flatMap Prod.snd) := by
  refine ⟨fun r => Text.fault_of_scan, fun r => Scope.fault_of_ofText,
    fun m program text f m' => Machine.kind_of_run, fun m callee args f m' => Machine.kind_of_apply,
    ?_⟩
  simp only [respond_of_read hread, respondTo]
  rcases e : Scope.ofText source with r | program
  · obtain ⟨f, hf, hkind⟩ := Scope.fault_of_ofText e
    obtain ⟨hparse, hrun⟩ := responses_of_error e hf hkind json
    rw [hparse, hrun]
    refine ⟨Iff.rfl, fun _ => rfl, ⟨nofun, nofun⟩, fun htokenize => ⟨rfl, rfl, ?_⟩⟩
    obtain ⟨ts, r', rest, hscan, e'⟩ := exists_first_of_code htokenize
    obtain rfl := Except.error.inj (e'.symm.trans e)
    exact ⟨ts, r', rest, f, hscan, hf, rfl, rfl, err_tokenizeText hscan hf⟩
  · obtain ⟨hparse, hrun⟩ := responses_of_ok e json
    have htokenize : (tokenizeText source).code ≠ 65 := by
      intro h
      obtain ⟨_, _, _, -, e'⟩ := exists_first_of_code h
      cases e'.symm.trans e
    rw [hparse]
    rcases hrun with ⟨v, m', hv, hrun⟩ | ⟨f, m', hf, hrun⟩
    · rw [hrun, hv]
      exact ⟨by decide, nofun, ⟨nofun, nofun⟩, fun h => absurd h htokenize⟩
    · rw [hrun]
      exact ⟨by decide, nofun, ⟨fun _ => ⟨rfl, .fault f, m', hf⟩, fun _ => rfl⟩,
        fun h => absurd h htokenize⟩

/-- Two characters that start no token are both reported by `tokenize`, and the first of them
by `parse` and `run`. -/
theorem commands_agree_stray :
    let file : Text := "row".toList
    let source : Text := "(ä é".toList
    let read := Folder.read (Folder.put [] file source.toBytes)
    let first := line "[line 1, col 2] Error: expected token, got ä".toList
    let second := line "[line 1, col 4] Error: expected token, got é".toList
    read file = .ok source ∧
      (respond ⟨.tokenize, some file, false⟩ read).err = first ++ second ∧
      (respond ⟨.parse, some file, false⟩ read).code = 65 ∧
      (respond ⟨.run false, some file, false⟩ read).code = 65 ∧
      (respond ⟨.run false, some file, false⟩ read).err = first := by
  intro file source read first second
  have hplain : Folder.Plain file := by
    unfold Folder.Plain
    decide +kernel
  have hread : read file = .ok source := Folder.read_put [] hplain source
  have htokens : (tokenizeText source).code = 65 ∧ (tokenizeText source).err = first ++ second := by
    decide +kernel
  have htree : (parseText source).err = first := by decide +kernel
  obtain ⟨-, -, -, -, -, hreports, -, hagree⟩ := commands_agree (ε := Unit) hread false false
  simp only [respond_of_read hread] at hreports hagree ⊢
  obtain ⟨hrun, hparse, -⟩ := hagree htokens.1
  exact ⟨hread, htokens.2, hparse, hrun, (hreports hrun).trans htree⟩

end DrawLang
