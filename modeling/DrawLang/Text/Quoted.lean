/-
DrawLang/Text/Quoted.lean

Quoted text: a quote inside is written twice, everything else stands for
itself.  The same rule serves string literals in programs, strings in printed
trees and strings shown inside sequences.

Main results: `closing?` reads what `quoted` writes and stops right behind the
closing quote (`closing?_quoted`), and the text it reads was written that way
(`eq_of_closing?`), so a text has exactly one quoted form, and a quoted form one
text in it (`quoted_unique`).
-/
import DrawLang.Text.Basic

namespace DrawLang.Text

/-- The text with each quote doubled. -/
def doubled : Text → Text
  | [] => []
  | c :: t => if c = '"' then '"' :: '"' :: doubled t else c :: doubled t

/-- The quoted form of a text. -/
def quoted (t : Text) : Text := '"' :: doubled t ++ ['"']

/-- Read on behind an opening quote up to the closing one: the text between
them and what follows, or `none` if no quote closes. -/
def closing? : Text → Option (Text × Text)
  | '"' :: '"' :: t => (closing? t).map fun (s, rest) => ('"' :: s, rest)
  | c :: t => if c = '"' then some ([], t) else (closing? t).map fun (s, rest) => (c :: s, rest)
  | [] => none

theorem closing?_cons_of_ne {c : Char} {t : Text} (h : c ≠ '"') :
    closing? (c :: t) = (closing? t).map fun (s, rest) => (c :: s, rest) := by
  cases t <;> simp [closing?, h]

theorem closing?_quoted (s : Text) {rest : Text} (h : rest.head? ≠ some '"') :
    closing? (doubled s ++ '"' :: rest) = some (s, rest) := by
  induction s with
  | nil =>
    cases rest with
    | nil => simp [doubled, closing?]
    | cons c rest => simp_all [doubled, closing?]
  | cons c s ih =>
    by_cases hc : c = '"'
    · simp [doubled, hc, closing?, ih]
    · simp [doubled, hc, closing?_cons_of_ne hc, ih]

theorem eq_of_closing? {t s rest : Text} (h : closing? t = some (s, rest)) :
    t = doubled s ++ '"' :: rest := by
  fun_induction closing? t generalizing s with
  | case1 t ih =>
    obtain ⟨⟨u, v⟩, hu, e⟩ := Option.map_eq_some_iff.1 h
    simp only [Prod.mk.injEq] at e
    obtain ⟨rfl, rfl⟩ := e
    simp [doubled, ih hu]
  | case2 => simp_all [doubled]
  | case3 c t _ hc ih =>
    obtain ⟨⟨u, v⟩, hu, e⟩ := Option.map_eq_some_iff.1 h
    simp only [Prod.mk.injEq] at e
    obtain ⟨rfl, rfl⟩ := e
    simp [doubled, hc, ih hu]
  | case4 => simp at h

/-- Where no quote follows, it is clear which text is quoted and where it is over. -/
theorem quoted_unique {s t r r' : Text} (hr : r.head? ≠ some '"') (hr' : r'.head? ≠ some '"')
    (h : quoted s ++ r = quoted t ++ r') : s = t ∧ r = r' := by
  have hread (s : Text) {r : Text} (hr : r.head? ≠ some '"') :
      closing? ((quoted s ++ r).drop 1) = some (s, r) := by
    rw [quoted, List.append_assoc]
    exact closing?_quoted s hr
  have hsame := hread s hr
  rw [h, hread t hr'] at hsame
  exact (Prod.mk.inj (Option.some.inj hsame)).imp Eq.symm Eq.symm

end DrawLang.Text
