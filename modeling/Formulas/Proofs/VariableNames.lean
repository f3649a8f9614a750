import Mathlib.Data.List.TakeWhile
import Formulas.Lexeme.Lexer
import Formulas.Bindings.Basic
/-!
# Variable names are whole name lexemes

The bindings table admits a name by `isVariableName`, and formulas mention names through the
lexer. Main statement: a text passes the check exactly when the lexer reads it as a single name
lexeme that covers all of it, so the names a table can hold are the names a formula can mention.
-/

namespace Formulas

open Lexer Text

/-- When the longest passing prefix has the length of the list, every member passes. -/
theorem all_of_length_takeWhile {p : Char → Bool} {l : List Char}
    (h : l.length ≤ (l.takeWhile p).length) : ∀ x ∈ l, p x = true := by
  have hp := List.takeWhile_prefix p (l := l)
  exact List.takeWhile_eq_self_iff.mp (hp.eq_of_length (Nat.le_antisymm hp.length_le h))

/-- The lexemes of a variable name: one name lexeme, all of the text. -/
theorem lex_of_isVariableName {c : Char} {rest : List Char} (hc : c.isAlpha = true)
    (hr : ∀ x ∈ rest, isAsciiAlnum x = true) :
    lexFrom 0 (c :: rest) = [⟨.name, String.ofList (c :: rest), 0⟩] := by
  have htw := List.takeWhile_eq_self_iff.mpr hr
  rw [lexFrom_lexeme rest (isBlank_of_isAlpha hc), classify_of_isAlpha rest hc, htw]
  simp [lexFrom_nil]

theorem isVariableName_iff_single_name_lexeme (n : String) :
    isVariableName n = true ↔ ∃ l, lex n = [l] ∧ l.kind = .name ∧ l.text = n := by
  unfold isVariableName lex
  constructor
  · intro h
    cases hn : n.toList with
    | nil => simp [hn] at h
    | cons c rest =>
      simp only [hn, Bool.and_eq_true, List.all_eq_true] at h
      refine ⟨_, lex_of_isVariableName h.1 h.2, rfl, ?_⟩
      rw [← hn, String.ofList_toList]
  · rintro ⟨l, hl, hk, ht⟩
    cases hn : n.toList with
    | nil => simp [hn, lexFrom_nil] at hl
    | cons c rest =>
      rw [hn] at hl
      have hlen : l.text.length = rest.length + 1 := by
        rw [ht, ← String.length_toList, hn, List.length_cons]
      cases hb : isBlank c
      · rw [lexFrom_lexeme rest hb, List.cons_eq_cons] at hl
        obtain ⟨rfl, -⟩ := hl
        obtain ⟨ha, hcount⟩ := isAlpha_of_classify_name hk
        simp only [String.length_ofList, List.length_cons, List.length_take] at hlen
        rw [hcount] at hlen
        simp only [Bool.and_eq_true, List.all_eq_true]
        exact ⟨ha, all_of_length_takeWhile (p := isAsciiAlnum) (by omega)⟩
      · rw [lexFrom_blank rest hb] at hl
        have := length_text_le (l := l) (by rw [hl]; simp)
        omega

end Formulas
