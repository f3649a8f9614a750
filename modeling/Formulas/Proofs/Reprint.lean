import Formulas.Proofs.Lexing
import Formulas.Proofs.Checker
import Formulas.Proofs.Doubles
import Formulas.Proofs.Progress
/-!
# Printing a formula and reading it back

A formula prints as its tokens' texts with one space between each two. Every lexeme was cut by
the lexer from its text, and a cut lexeme closed by a space or by the end of the text is lexed
again as itself. So the texts of any text's lexemes, joined by single spaces, lex to lexemes of
the same kinds and texts (`lex_intercalate_texts`). For a checked formula these stand for the
same tokens and pass the same syntax check. Main statement: `parse_render`, parsing the print of
a checked formula gives the formula back, and the formula equals itself under token equality,
since the lexer never makes a not-a-number double.
-/

namespace Formulas

open Lexer

/-- A lexeme as the lexer cuts it: from a character that is not blank and the text after it. -/
def Lexeme.IsCut (l : Lexeme) : Prop :=
  ∃ c rest, Text.isBlank c = false ∧ l.kind = (classify c rest).1 ∧
    l.text = String.ofList (c :: rest.take (classify c rest).2)

/-- The lexeme that one call of the lexer gives is cut from the text. -/
theorem Lexer.isCut_of_next {offset : Nat} {cs : List Char} {l : Lexeme} {offset' : Nat}
    {rest : List Char} (h : next offset cs = some (l, offset', rest)) : l.IsCut := by
  fun_induction next offset cs with
  | case1 => simp at h
  | case2 offset c rest hb ih => exact ih h
  | case3 offset c rest hb kind n hcl text =>
    rw [Option.some.injEq, Prod.mk.injEq] at h
    rw [← h.1]
    exact ⟨c, rest, by simpa using hb, by rw [hcl], by rw [hcl]⟩

/-- Every lexeme of a text is cut from it. -/
theorem Lexer.isCut_of_mem_lexFrom {offset : Nat} {cs : List Char} {l : Lexeme}
    (h : l ∈ lexFrom offset cs) : l.IsCut := by
  fun_induction lexFrom offset cs with
  | case1 => simp at h
  | case2 offset cs l' offset' rest hn ih =>
    rcases List.mem_cons.1 h with rfl | h
    · exact isCut_of_next hn
    · exact ih h

namespace Lexeme.IsCut

variable {l : Lexeme} {t : Token}

/-- A cut lexeme's token prints as the lexeme's own text: an operator or a parenthesis is cut
alone from the character that writes it. -/
theorem token?_text (hl : l.IsCut) (ht : l.token? = some t) : t.text = l.text := by
  obtain ⟨c, rest, -, hk, htext⟩ := hl
  rcases Lexeme.token?_eq_some ht with
    ⟨v, -, rfl⟩ | ⟨-, rfl⟩ | ⟨o, ho, rfl⟩ | ⟨hp, rfl⟩ | ⟨hp, rfl⟩
  · rfl
  · rfl
  · obtain ⟨hop, hn⟩ := classify_operator (hk.symm.trans ho)
    rw [htext, hn, List.take_zero, ← Operator.char_of_ofChar? hop]
    rfl
  · obtain ⟨rfl, hn⟩ := classify_openParen (hk.symm.trans hp)
    rw [htext, hn, List.take_zero]
    rfl
  · obtain ⟨rfl, hn⟩ := classify_closeParen (hk.symm.trans hp)
    rw [htext, hn, List.take_zero]
    rfl

/-- A cut lexeme's token equals itself: a number's double is never not-a-number. -/
theorem token?_beq_self (hl : l.IsCut) (ht : l.token? = some t) : (t == t) = true := by
  obtain ⟨c, rest, -, hk, -⟩ := hl
  rcases Lexeme.token?_eq_some ht with
    ⟨v, hv, rfl⟩ | ⟨-, rfl⟩ | ⟨o, -, rfl⟩ | ⟨-, rfl⟩ | ⟨-, rfl⟩
  · obtain ⟨d, rfl⟩ := classify_number (hk.symm.trans hv)
    show (d.toFloat == d.toFloat && l.text == l.text) = true
    simp [Decimal.toFloat_beq_self]
  · show (l.text == l.text) = true
    simp
  · show (o == o) = true
    simp
  · rfl
  · rfl

/-- A cut lexeme, closed by a space or the end, is lexed again as itself. -/
theorem lexFrom_text_append (hl : l.IsCut) (offset : Nat) (tail : List Char) (ht : Closes tail) :
    ∃ offset', lexFrom offset (l.text.toList ++ tail) =
      ⟨l.kind, l.text, offset⟩ :: lexFrom offset' tail := by
  obtain ⟨c, rest, hb, hkind, htext⟩ := hl
  rw [hkind, htext, String.toList_ofList]
  exact ⟨_, lexFrom_cut offset rest hb ht⟩

end Lexeme.IsCut

/-- Lexing cut lexemes printed with one space between each two gives them back, up to where
they stand in the text. -/
theorem Lexer.lexFrom_intercalate : ∀ (ls : List Lexeme) (offset : Nat), (∀ l ∈ ls, l.IsCut) →
    (lexFrom offset ([' '].intercalate (ls.map fun l => l.text.toList))).map
      (fun l => (l.kind, l.text)) = ls.map fun l => (l.kind, l.text)
  | [], _, _ => by simp [lexFrom_nil]
  | [l], offset, h => by
    obtain ⟨offset', heq⟩ := (h l (by simp)).lexFrom_text_append offset [] trivial
    rw [List.append_nil] at heq
    simp [heq, lexFrom_nil]
  | l :: l' :: ls, offset, h => by
    obtain ⟨offset', heq⟩ := (h l (by simp)).lexFrom_text_append offset
      (' ' :: [' '].intercalate ((l' :: ls).map fun l => l.text.toList)) (.inl rfl)
    have hrest := lexFrom_intercalate (l' :: ls) (offset' + (' ').utf8Size)
      (fun x hx => h x (List.mem_cons_of_mem l hx))
    rw [List.map_cons, List.intercalate_cons_of_ne_nil (by simp), List.append_assoc,
      List.singleton_append, heq, List.map_cons, lexFrom_blank _ (by decide), hrest]
    rfl

/-- Lexing the texts of a text's lexemes joined by single spaces gives lexemes of the same kinds
and texts, unrecognised runs included: a space never lengthens or shortens a lexeme. -/
theorem lex_intercalate_texts (s : String) :
    (lex (" ".intercalate ((lex s).map Lexeme.text))).map (fun l => (l.kind, l.text)) =
      (lex s).map fun l => (l.kind, l.text) := by
  have htext : (" ".intercalate ((lex s).map Lexeme.text)).toList =
      [' '].intercalate ((lex s).map fun l => l.text.toList) := by
    rw [String.toList_intercalate, List.map_map]
    rfl
  calc (lex (" ".intercalate ((lex s).map Lexeme.text))).map (fun l => (l.kind, l.text))
      = (lexFrom 0 ([' '].intercalate ((lex s).map fun l => l.text.toList))).map
          (fun l => (l.kind, l.text)) := by rw [← htext]; rfl
    _ = (lex s).map fun l => (l.kind, l.text) :=
      lexFrom_intercalate _ 0 fun l hl => isCut_of_mem_lexFrom hl

/-- Recognised cut lexemes print as the tokens they stand for. -/
theorem Lexer.texts_filterMap_token? : ∀ ls : List Lexeme,
    (∀ l ∈ ls, l.IsCut ∧ l.kind ≠ .unrecognised) →
    (ls.filterMap Lexeme.token?).map (fun t => t.text.toList) = ls.map fun l => l.text.toList
  | [], _ => rfl
  | l :: ls, h => by
    obtain ⟨hcut, hk⟩ := h l (by simp)
    obtain ⟨t, ht⟩ := Option.isSome_iff_exists.1 ((Lexeme.token?_isSome_iff l).2 hk)
    rw [List.filterMap_cons_some ht, List.map_cons, List.map_cons,
      Lexeme.IsCut.token?_text hcut ht,
      texts_filterMap_token? ls (fun x hx => h x (List.mem_cons_of_mem l hx))]

/-- Lexemes that agree in kind and text stand for the same tokens. -/
theorem Lexer.filterMap_token?_congr {ls ls' : List Lexeme}
    (h : ls.map (fun l => (l.kind, l.text)) = ls'.map fun l => (l.kind, l.text)) :
    ls.filterMap Lexeme.token? = ls'.filterMap Lexeme.token? := by
  have hview : ∀ ls : List Lexeme, ls.filterMap Lexeme.token? =
      (ls.map fun l => (l.kind, l.text)).filterMap fun p => Lexeme.token? ⟨p.1, p.2, 0⟩ := by
    intro ls
    rw [List.filterMap_map]
    rfl
  rw [hview, hview ls', h]

/-- The characters of a printed formula: its tokens' texts with one space between each two. -/
theorem Formula.toList_render (f : Formula) :
    f.render.toList = [' '].intercalate (f.tokens.map fun t => t.text.toList) := by
  rw [Formula.render, String.toList_intercalate, List.map_map]
  rfl

/-- A formula whose tokens each equal themselves equals itself. -/
theorem Formula.beq_self {f : Formula} (h : ∀ t ∈ f.tokens, (t == t) = true) :
    (f == f) = true := by
  rcases f with ⟨ts⟩
  show (ts == ts) = true
  induction ts with
  | nil => rfl
  | cons t ts ih =>
    show (t == t && ts == ts) = true
    rw [h t (by simp), ih (fun x hx => h x (by simp [hx]))]
    rfl

/-- Printing a checked formula and parsing the print gives the formula back, and the formula
equals itself under token equality: no number it holds has a not-a-number double. -/
theorem parse_render {s : String} {f : Formula} (h : Formula.parse s = .ok f) :
    Formula.parse f.render = .ok f ∧ (f == f) = true := by
  obtain ⟨hrec, -, htok⟩ := (Formula.parse_eq_ok_iff_walk s f).1 h
  have hcut : ∀ l ∈ lex s, l.IsCut ∧ l.kind ≠ .unrecognised :=
    fun l hl => ⟨isCut_of_mem_lexFrom hl, hrec l hl⟩
  -- the print lexes to lexemes of the kinds and texts of the original ones
  have hsame : (lex f.render).map (fun l => (l.kind, l.text)) =
      (lex s).map fun l => (l.kind, l.text) := by
    rw [lex, Formula.toList_render, htok, texts_filterMap_token? _ hcut]
    exact lexFrom_intercalate _ 0 fun l hl => (hcut l hl).1
  have htokens : (lex f.render).filterMap Lexeme.token? = f.tokens := by
    rw [filterMap_token?_congr hsame, htok]
  have hrec' : ∀ l ∈ lex f.render, l.kind ≠ .unrecognised := by
    intro l hl
    obtain ⟨l', hl', heq⟩ := List.mem_map.1 (hsame ▸ List.mem_map_of_mem hl)
    rw [← (Prod.mk.inj heq).1]
    exact hrec l' hl'
  refine ⟨(Formula.parse_eq_ok_iff_walk _ f).2 ⟨hrec', ?_, htokens.symm⟩, Formula.beq_self ?_⟩
  · rw [htokens]
    exact Formula.walk_of_parse h
  · intro t ht
    rw [htok] at ht
    obtain ⟨l, hl, hlt⟩ := List.mem_filterMap.1 ht
    exact Lexeme.IsCut.token?_beq_self (hcut l hl).1 hlt

/-- A number that ends in its point is printed and read back whole. -/
theorem parse_render_point_number :
    Formula.parse "x1*5." =
        .ok ⟨[.var "x1", .operator .star, .number (Decimal.toFloat ⟨5, 0⟩) "5."]⟩ ∧
      Formula.parse (Formula.render
          ⟨[.var "x1", .operator .star, .number (Decimal.toFloat ⟨5, 0⟩) "5."]⟩) =
        .ok ⟨[.var "x1", .operator .star, .number (Decimal.toFloat ⟨5, 0⟩) "5."]⟩ ∧
      ((⟨[.var "x1", .operator .star, .number (Decimal.toFloat ⟨5, 0⟩) "5."]⟩ : Formula) ==
        ⟨[.var "x1", .operator .star, .number (Decimal.toFloat ⟨5, 0⟩) "5."]⟩) = true := by
  have hparse : Formula.parse "x1*5." =
      .ok ⟨[.var "x1", .operator .star, .number (Decimal.toFloat ⟨5, 0⟩) "5."]⟩ := by
    rw [Formula.parse, lex_eq_lexWithin]
    rfl
  exact ⟨hparse, parse_render hparse⟩

end Formulas
