/-
DrawLang/Proofs/Grammar/Layout.lean

Layout means nothing.  Two rows of tokens that are seen the same differ by a
respacing of the first one (`Token.exists_respaced`), so with one text the other one has a
tree as well, and the trees are the same up to spans (`Scope.ofText_of_seen`).

Together with what is known of tokens that are laid out anew: the text has the same tokens,
and it has a tree exactly where the one they come from has (`layout_means_nothing`).
-/
import DrawLang.Proofs.Grammar.Moved
import DrawLang.Proofs.Grammar.OfText
import DrawLang.Proofs.Token.Layout
import DrawLang.Proofs.Token.Tiling
import DrawLang.Proofs.Token.Written

namespace DrawLang

open Grammar

/-- A scope without its spans. -/
def Scope.bare (s : Scope) : Scope := s.relocate fun _ => 0

/-! ### Tokens that are seen the same -/

namespace Token

/-- **Rows of tokens that are seen the same are respaced**, if no token is twice in the first. -/
theorem exists_respaced {stop stop' : Option Nat} {ts us : List Token} (hnodup : ts.Nodup)
    (hseen : seen stop us = seen stop' ts) : ∃ f, ts.map f = us ∧ Respaced f ts := by
  induction ts generalizing stop stop' us with
  | nil =>
    rcases us with - | ⟨u, us⟩
    · exact ⟨id, rfl, List.forall_mem_nil _, .nil⟩
    · cases hseen
  | cons t ts ih =>
    rcases us with - | ⟨u, us⟩
    · cases hseen
    obtain ⟨hhead, hrest⟩ := List.cons.inj hseen
    obtain ⟨hkind, hmore⟩ := Prod.mk.inj hhead
    obtain ⟨hlexeme, -⟩ := Prod.mk.inj hmore
    obtain ⟨hnot, hnodup⟩ := List.nodup_cons.1 hnodup
    obtain ⟨f, rfl, hf⟩ := ih hnodup hrest
    have hsame : ∀ x ∈ ts, Function.update f t u x = f x := fun x hx =>
      Function.update_of_ne (fun (h : x = t) => hnot (h ▸ hx)) u f
    refine ⟨Function.update f t u, ?_, ?_, ?_⟩
    · rw [List.map_cons, Function.update_self, List.map_congr_left hsame]
    · refine List.forall_mem_cons.2 ⟨?_, fun x hx => ?_⟩
      · constructor <;> rw [Function.update_self] <;> assumption
      · constructor <;> rw [hsame x hx]
        · exact (hf.keeps x hx).kind
        · exact (hf.keeps x hx).lexeme
    · refine List.isChain_cons.2 ⟨fun x hx hopen => ?_, ?_⟩
      -- the head of the rest touches the changed token where it touched the old one
      · obtain ⟨ys, rfl⟩ := List.head?_eq_some_iff.1 hx
        obtain ⟨hfirst, -⟩ := List.cons.inj hrest
        have hflag := decide_eq_decide.1 (Prod.mk.inj (Prod.mk.inj hfirst).2).2
        have hopen' := (hf.keeps x List.mem_cons_self).kind.trans hopen
        rw [hsame x List.mem_cons_self, Function.update_self]
        simpa [hopen, hopen', eq_comm] using hflag
      · refine List.IsChain.imp_of_mem_imp (fun x y hx hy h => ?_) hf.touching
        rw [hsame x hx, hsame y hy]
        exact h

/-- Tokens that are seen the same have the same kinds and lexemes. -/
theorem map_of_seen {stop stop' : Option Nat} {ts us : List Token}
    (hseen : seen stop us = seen stop' ts) :
    us.map (fun t => (t.kind, t.lexeme)) = ts.map fun t => (t.kind, t.lexeme) := by
  induction ts generalizing stop stop' us with
  | nil =>
    rcases us with - | ⟨u, us⟩
    · rfl
    · cases hseen
  | cons t ts ih =>
    rcases us with - | ⟨u, us⟩
    · cases hseen
    · obtain ⟨hhead, hrest⟩ := List.cons.inj hseen
      obtain ⟨hkind, hmore⟩ := Prod.mk.inj hhead
      obtain ⟨hlexeme, -⟩ := Prod.mk.inj hmore
      rw [List.map_cons, List.map_cons, hkind, hlexeme, ih hrest]

end Token

namespace Text

variable {source text : Text} {ts us : List Token} {last last' : Token}

/-- The end of input has no characters. -/
theorem lexeme_of_end {t : Token} (h : t ∈ source.tokens) (hkind : t.kind = .endOfInput) :
    t.lexeme = [] := by
  rw [eq_end_of_mem_tokens h hkind]

/-- **Each token of a text starts behind the ones before it.** -/
theorem offset_lt_of_tokens? (h : source.tokens? = .ok ts) :
    ts.Pairwise fun t u => t.offset < u.offset := by
  have hpairs := pairwise_tokens source
  rw [tokens_eq_of_tokens? h] at hpairs
  obtain ⟨us, last, rfl, -, hkind, -⟩ := exists_row_of_tokens? h
  have hlt : ∀ t ∈ us, t.offset < t.stop := fun t ht =>
    offset_lt_stop (mem_tokens_of_tokens? h (List.mem_append_left [last] ht)) (hkind t ht)
  obtain ⟨hinit, -, hbehind⟩ := List.pairwise_append.1 hpairs
  refine List.pairwise_append.2 ⟨?_, List.pairwise_singleton _ _, fun t ht u hu => ?_⟩
  · exact hinit.imp_of_mem fun ht _ hle => Nat.lt_of_lt_of_le (hlt _ ht) hle
  · exact Nat.lt_of_lt_of_le (hlt t ht) (hbehind t ht u hu)

/-- No two tokens of a text are at one offset. -/
theorem offset_eq_iff (h : source.tokens? = .ok ts) {t u : Token} (ht : t ∈ ts) (hu : u ∈ ts) :
    t.offset = u.offset ↔ t = u := by
  have hnodup : (ts.map Token.offset).Nodup :=
    List.pairwise_map.2 ((offset_lt_of_tokens? h).imp Nat.ne_of_lt)
  exact ⟨fun hoffset => List.inj_on_of_nodup_map hnodup ht hu hoffset, fun heq => heq ▸ rfl⟩

/-- No token is twice in a text. -/
theorem nodup_of_tokens? (h : source.tokens? = .ok (ts ++ [last])) : ts.Nodup :=
  (List.pairwise_append.1 (offset_lt_of_tokens? h)).1.imp fun hlt heq =>
    absurd (heq ▸ hlt) (Nat.lt_irrefl _)

/-- The items of a text without reports are its tokens and the end of input. -/
theorem read_scan_of_tokens? (h : source.tokens? = .ok (ts ++ [last])) :
    source.scan.map Lexeme.read =
      (ts.map fun t => (t.kind, t.lexeme)).map .ok ++ [.ok (.endOfInput, [])] := by
  obtain ⟨_, _, hts, -, -, hkind, -⟩ := exists_row_of_tokens? h
  obtain rfl := List.singleton_inj.1 (List.append_inj' hts rfl).2
  have hlexeme := lexeme_of_end (mem_tokens_of_tokens? h (List.mem_append_right ts
    List.mem_cons_self)) hkind
  rw [mapM_scanned_eq_ok h, ← hlexeme, ← hkind, List.map_append, List.map_append]
  simp only [List.map_map]
  rfl

end Text

/-! ### Trees -/

section

variable {source text : Text} {ts us : List Token} {last last' : Token}

/-- **Texts with tokens that are seen the same have the same trees up to spans.** -/
theorem Scope.ofText_of_seen (h : source.tokens? = .ok (ts ++ [last]))
    (h' : text.tokens? = .ok (us ++ [last'])) (hseen : Token.seen none us = Token.seen none ts)
    {program : Scope} (hread : ofText source = .ok program) :
    ∃ program', ofText text = .ok program' ∧ program'.bare = program.bare := by
  obtain ⟨d, last'', htokens, -, hd, hheight, rfl⟩ := ofText_eq_ok_iff.1 hread
  obtain ⟨rfl, -⟩ := List.append_inj' (Except.ok.inj (h.symm.trans htokens)) rfl
  obtain ⟨f, rfl, hf⟩ := Token.exists_respaced (Text.nodup_of_tokens? h) hseen
  obtain ⟨_, _, hus, -, -, hlast', -⟩ := Text.exists_row_of_tokens? h'
  obtain rfl := List.singleton_inj.1 (List.append_inj' hus rfl).2
  have hmapped : (d.map f).Derives [] := by
    refine d.derives_map ?_ (d.derives_nil hd)
    rwa [List.append_nil]
  refine ⟨(d.map f).tree, ofText_eq_ok_iff.2 ⟨d.map f, last', ?_, hlast',
    (d.map f).derives_less (opensLess_end hlast' []) hmapped, ?_, rfl⟩, ?_⟩
  · rw [d.tokens_map, h']
  · rw [d.height_map]
    exact hheight
  · exact d.relocate_tree_map fun t ht => ⟨(hf.keeps t ht).lexeme, rfl, rfl⟩

/-- **Layout means nothing.**  Take a text without reports, and write its tokens with other
white characters and comments around them: none where a token touches the one before
it, and some where it does not.  What there is to read in the new text is the same,
kind by kind and lexeme by lexeme.  One of the texts has a tree exactly if the
other one has, and the trees are the same up to spans. -/
theorem layout_means_nothing (h : source.tokens? = .ok (ts ++ [last]))
    (htext : LaidOut none ts text) :
    text.scan.map Lexeme.read = source.scan.map Lexeme.read ∧
      (Scope.ofText text).toOption.map Scope.bare =
        (Scope.ofText source).toOption.map Scope.bare := by
  obtain ⟨us, last', h', hseen⟩ := htext.exists_tokens h
  constructor
  · rw [Text.read_scan_of_tokens? h, Text.read_scan_of_tokens? h', Token.map_of_seen hseen]
  · rcases hsource : Scope.ofText source with m | program
    · rcases hnew : Scope.ofText text with m' | program'
      · rfl
      · obtain ⟨program, hread, -⟩ := Scope.ofText_of_seen h' h hseen.symm hnew
        exact absurd (hsource.symm.trans hread) nofun
    · obtain ⟨program', hread, hbare⟩ := Scope.ofText_of_seen h h' hseen hsource
      rw [hread]
      exact congrArg some hbare

/-- The tokens of `f(1 "ü")`, where the parenthesis touches the name, with a comment that
holds a parenthesis and line feeds between them. -/
theorem layout_means_nothing_call :
    ∃ ts last, Text.tokens? "f(1 \"ü\")".toList = .ok (ts ++ [last]) ∧
      LaidOut none ts ";é\n f(1;)\n\t\"ü\")\r".toList ∧
      (Scope.ofText ";é\n f(1;)\n\t\"ü\")\r".toList).toOption.map Scope.bare =
        (Scope.ofText "f(1 \"ü\")".toList).toOption.map Scope.bare := by
  let ts : List Token := [⟨.identifier, "f".toList, 0, 1⟩, ⟨.openParen, "(".toList, 1, 1⟩,
    ⟨.number 1, "1".toList, 2, 1⟩, ⟨.string "ü".toList, "\"ü\"".toList, 4, 1⟩,
    ⟨.closeParen, ")".toList, 8, 1⟩]
  have h : Text.tokens? "f(1 \"ü\")".toList = .ok (ts ++ [⟨.endOfInput, [], 9, 1⟩]) := by
    decide +kernel
  have htext : LaidOut none ts (";é\n ".toList ++ ("f".toList ++ ([] ++ ("(".toList ++ ([] ++
      ("1".toList ++ (";)\n\t".toList ++ ("\"ü\"".toList ++ ([] ++ (")".toList ++
        "\r".toList)))))))))) := by
    refine .token (.comment (s := "é".toList) ?_ (.white ?_ .nil)) nofun <| .token .nil ?_ <|
      .token .nil ?_ <| .token (.comment (s := ")".toList) ?_ (.white ?_ .nil)) ?_ <|
        .token .nil ?_ <| .done (.white ?_ .nil)
    all_goals decide +kernel
  exact ⟨ts, _, h, htext, (layout_means_nothing h htext).2⟩

end

end DrawLang
