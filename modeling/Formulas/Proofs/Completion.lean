import Formulas.Proofs.ErrorLocation
import Formulas.Proofs.Progress
/-!
# Completing a text that ends too early

A text whose every lexeme passes the check can still fail at its end: with groups left open, or
after an operator or `(`. The help for the first says to add as many `)` as there are groups
open, and the help for the second to finish with a number or a variable.

Lexing a text followed by a closing text (a space or a `)` next, see `Closes`) gives the text's
lexemes and then the closing text's: every scanner stops at such a character as it stops at the
end of the text. So what the check sees after a text is completed is what it saw at the end of the
text, then the added tokens.

Main statement: `parse_end_fault_completion`. A dangling end is always mended by a number. Open
groups are mended by the `)` the help asks for exactly when the text ends with an operand; when it
ends with an operator or `(` (as `((` does), the first added `)` fails, and a number must come
before the `)`. Both completions are proved from the walk of the check
(`Position.walk_append`): the added tokens are walked from where the text's tokens left it.
-/

namespace Formulas

namespace Lexer

open Text

/-! ## Lexing before a closing text -/

variable {tail : List Char}

theorem takeWhile_append_of_takeWhile_eq_nil {p : Char → Bool} (xs : List Char)
    (ht : tail.takeWhile p = []) : (xs ++ tail).takeWhile p = xs.takeWhile p := by
  rw [List.takeWhile_append]
  split
  · rw [ht, List.append_nil]
    exact ((List.takeWhile_prefix p).eq_of_length ‹_›).symm
  · rfl

theorem digitRun_append_of_closes (xs : List Char) (ht : Closes tail) :
    digitRun (xs ++ tail) = digitRun xs := by
  have hnil : tail.takeWhile Char.isDigit = [] := List.length_eq_zero_iff.mp ht.digitRun_eq_zero
  rw [digitRun, digitRun, takeWhile_append_of_takeWhile_eq_nil xs hnil]

theorem startsWithDigit_append_of_closes (xs : List Char) (ht : Closes tail) :
    startsWithDigit (xs ++ tail) = startsWithDigit xs := by
  cases xs with
  | nil => exact ht.startsWithDigit_eq_false
  | cons c cs => rfl

/-- An exponent stops before a closing text as it stops at the end. -/
theorem exponentLength_append_of_closes (xs : List Char) (ht : Closes tail) :
    exponentLength (xs ++ tail) = exponentLength xs := by
  have hrun := ht.digitRun_eq_zero
  match xs with
  | [] => exact ht.exponentLength_eq_zero
  | [c] =>
    -- a lone `e` has no digits after it, in the text or before the closing text
    cases tail with
    | nil => rfl
    | cons s ds =>
      have hs : ¬(s = '+' ∨ s = '-') := by rcases ht with rfl | rfl <;> simp
      simp [exponentLength, hs, hrun]
  | c :: s :: ds =>
    simp only [List.cons_append, exponentLength, digitRun_append_of_closes ds ht]
    rw [← List.cons_append, digitRun_append_of_closes (s :: ds) ht]

/-- A number stops before a closing text as it stops at the end. -/
theorem numberLength_append_of_closes (cs : List Char) (ht : Closes tail) :
    numberLength (cs ++ tail) = numberLength cs := by
  have hzero : ∀ {r : List Char}, digitRun r = 0 → digitRun (r ++ tail) = 0 := fun hr => by
    rw [digitRun_append_of_closes _ ht, hr]
  rcases numberLength_cases cs with
    ⟨ws, fs, r, rfl, hws, hfs, hr, hnum, hlen⟩ | ⟨r, rfl, hr, hlen⟩ |
      ⟨ws, r, rfl, hws, hr, hpoint, hlen⟩
  · have hcs : ws ++ '.' :: (fs ++ r) ++ tail = ws ++ '.' :: (fs ++ (r ++ tail)) := by simp
    rw [hlen, hcs, numberLength_point hws hfs (hzero hr) hnum,
      exponentLength_append_of_closes r ht]
  · rw [hlen, List.cons_append, numberLength_lone_point (hzero hr)]
  · have hpoint' : (r ++ tail).head? ≠ some '.' := by
      simpa using head?_take_append_ne r.length hpoint ht.head?_ne_point
    rw [hlen, List.append_assoc, numberLength_whole hws (hzero hr) hpoint',
      exponentLength_append_of_closes r ht]

/-- An unrecognised run stops before a closing text as it stops at the end: at each of its
characters the same lexemes open or not. -/
theorem unrecognisedLength_append_of_closes (rest : List Char) (ht : Closes tail) :
    unrecognisedLength (rest ++ tail) = unrecognisedLength rest := by
  induction rest with
  | nil => exact ht.unrecognisedLength_eq_zero
  | cons d ds ih =>
    -- a lexeme opens at `d` before the closing text exactly where it opened in the text
    have hs : startsLexeme (d :: (ds ++ tail)) = startsLexeme (d :: ds) := by
      simp only [startsLexeme, startsWithDigit_append_of_closes ds ht]
    simp only [List.cons_append, unrecognisedLength, hs, ih]

/-- The lexer decides on the text alone: a closing text after it changes no lexeme. -/
theorem classify_append_of_closes (c : Char) (rest : List Char) (ht : Closes tail) :
    classify c (rest ++ tail) = classify c rest := by
  have hname : (rest ++ tail).takeWhile isAsciiAlnum = rest.takeWhile isAsciiAlnum :=
    takeWhile_append_of_takeWhile_eq_nil rest ht.takeWhile_isAsciiAlnum
  have hnum : numberLength (c :: (rest ++ tail)) = numberLength (c :: rest) :=
    numberLength_append_of_closes (c :: rest) ht
  have htake : (rest ++ tail).take (numberLength (c :: rest) - 1) =
      rest.take (numberLength (c :: rest) - 1) := by
    have := numberLength_le_length (c :: rest)
    rw [List.length_cons] at this
    exact List.take_append_of_le_length (by omega)
  simp only [classify, hname, startsWithDigit_append_of_closes rest ht, hnum, htake,
    unrecognisedLength_append_of_closes rest ht]

/-- One call of the lexer on a text followed by a closing text gives the lexeme it gave on the
text, and leaves the closing text after what it left. -/
theorem next_append_of_closes {offset : Nat} {cs : List Char} {l : Lexeme} {offset' : Nat}
    {rest : List Char} (h : next offset cs = some (l, offset', rest)) (ht : Closes tail) :
    next offset (cs ++ tail) = some (l, offset', rest ++ tail) := by
  fun_induction next offset cs with
  | case1 => simp at h
  | case2 offset c more hb ih => rw [List.cons_append, next_blank _ hb, ih h]
  | case3 offset c more hb kind n hcl text =>
    rw [Option.some.injEq, Prod.mk.injEq, Prod.mk.injEq] at h
    obtain ⟨rfl, rfl, rfl⟩ := h
    have hle : n ≤ more.length := by
      have := classify_snd_le_length c more
      rw [hcl] at this
      exact this
    rw [List.cons_append, next_lexeme _ (Bool.eq_false_iff.mpr hb),
      classify_append_of_closes c more ht, hcl,
      List.take_append_of_le_length hle, List.drop_append_of_le_length hle]

/-- Blanks at the start are skipped, their bytes counted. -/
theorem lexFrom_blanks_append {blanks : List Char} (hb : ∀ c ∈ blanks, isBlank c = true)
    (offset : Nat) (cs : List Char) :
    lexFrom offset (blanks ++ cs) = lexFrom (offset + byteLength blanks) cs := by
  induction blanks generalizing offset with
  | nil => rfl
  | cons b bs ih =>
    rw [List.cons_append, lexFrom_blank _ (hb b List.mem_cons_self),
      ih (fun c hc => hb c (List.mem_cons_of_mem b hc)), byteLength_cons, Nat.add_assoc]

/-- Lexing a text followed by a closing text gives the text's lexemes, then the closing text's. -/
theorem lexFrom_append_of_closes (offset : Nat) (cs : List Char) (ht : Closes tail) :
    lexFrom offset (cs ++ tail) = lexFrom offset cs ++ lexFrom (offset + byteLength cs) tail := by
  fun_induction lexFrom offset cs with
  | case1 offset cs hn =>
    rw [List.nil_append]
    exact lexFrom_blanks_append ((next_eq_none_iff offset cs).mp hn) offset tail
  | case2 offset cs l offset' rest hn ih =>
    -- the call on the whole text cuts the same lexeme; the rest goes on where the text's did
    obtain ⟨blanks, -, -, hcs, hoff, hnext⟩ := next_eq_some hn
    have hbytes : offset' + byteLength rest = offset + byteLength cs := by
      have hlen : l.length = byteLength l.text.toList := utf8ByteSize_eq_byteLength l.text
      rw [hnext, hoff, hlen, hcs, byteLength_append, byteLength_append]
      omega
    rw [lexFrom_of_next_some (next_append_of_closes hn ht), ih, hbytes, List.cons_append]

/-! ## What a completed text lexes to -/

theorem closes_replicate_closeParen (n : Nat) : Closes (List.replicate n ')') := by
  cases n with
  | zero => trivial
  | succ n => exact .inr rfl

/-- `)` characters lex to one `)` each, a byte apart. -/
theorem lexFrom_replicate_closeParen (offset n : Nat) :
    lexFrom offset (List.replicate n ')') =
      (List.range n).map fun i => ⟨.closeParen, ")", offset + i⟩ := by
  induction n generalizing offset with
  | zero => exact lexFrom_nil offset
  | succ n ih =>
    have hcl : classify ')' (List.replicate n ')') = (.closeParen, 0) := by
      simp [classify, Operator.ofChar?]
    rw [List.replicate_succ, lexFrom_lexeme _ (by decide), hcl, List.take_zero, List.drop_zero,
      ih, List.range_succ_eq_map]
    simp only [List.map_cons, List.map_map, Nat.add_zero]
    congr 2
    funext i
    have hparen : (')').utf8Size = 1 := rfl
    simp only [Function.comp_apply, byteLength_cons, byteLength_nil, hparen]
    congr 1
    omega

/-- A space and `1` lex to the number one. -/
theorem lexFrom_space_one (offset : Nat) :
    lexFrom offset [' ', '1'] = [⟨.number (Decimal.toFloat ⟨1, 0⟩), "1", offset + 1⟩] := by
  have hcl : classify '1' [] = (.number (Decimal.toFloat ⟨1, 0⟩), 0) := rfl
  have hspace : (' ').utf8Size = 1 := rfl
  rw [lexFrom_blank _ (by decide), lexFrom_lexeme _ (by decide), hcl]
  simp [lexFrom_nil, hspace]

end Lexer

open Lexer in
/-- A text followed by `)` characters lexes to the text's lexemes, then one `)` each. -/
theorem lex_append_closeParens (s : String) (n : Nat) :
    lex (s ++ String.ofList (List.replicate n ')')) =
      lex s ++ (List.range n).map fun i => ⟨.closeParen, ")", s.utf8ByteSize + i⟩ := by
  rw [lex, lex, String.toList_append, String.toList_ofList,
    lexFrom_append_of_closes 0 _ (closes_replicate_closeParen n), lexFrom_replicate_closeParen,
    Nat.zero_add, utf8ByteSize_eq_byteLength]

open Lexer in
/-- A text followed by a space and `1` lexes to the text's lexemes, then the number one. -/
theorem lex_append_one (s : String) :
    lex (s ++ " 1") = lex s ++ [⟨.number (Decimal.toFloat ⟨1, 0⟩), "1", s.utf8ByteSize + 1⟩] := by
  have hone : " 1".toList = [' ', '1'] := rfl
  rw [lex, lex, String.toList_append, hone,
    lexFrom_append_of_closes 0 _ (show Closes [' ', '1'] from .inl rfl), lexFrom_space_one,
    Nat.zero_add, utf8ByteSize_eq_byteLength]

open Lexer in
/-- A text followed by a space, `1` and `)` characters lexes to the text's lexemes, the number
one, then one `)` each. -/
theorem lex_append_one_closeParens (s : String) (n : Nat) :
    lex (s ++ " 1" ++ String.ofList (List.replicate n ')')) =
      lex s ++ ⟨.number (Decimal.toFloat ⟨1, 0⟩), "1", s.utf8ByteSize + 1⟩ ::
        (List.range n).map fun i => ⟨.closeParen, ")", s.utf8ByteSize + 2 + i⟩ := by
  have hone : " 1".toList = [' ', '1'] := rfl
  have hspace : (' ').utf8Size = 1 := rfl
  rw [lex, lex, String.toList_append, String.toList_append, hone, String.toList_ofList,
    List.append_assoc,
    lexFrom_append_of_closes 0 _ (show Closes ([' ', '1'] ++ List.replicate n ')') from .inl rfl),
    lexFrom_append_of_closes _ [' ', '1'] (closes_replicate_closeParen n), lexFrom_space_one,
    lexFrom_replicate_closeParen, Nat.zero_add, utf8ByteSize_eq_byteLength, byteLength_cons,
    byteLength_cons, byteLength_nil, hspace]
  rfl

/-- The tokens of `)` lexemes. -/
theorem filterMap_token?_closeParens (offset n : Nat) :
    ((List.range n).map fun i => (⟨.closeParen, ")", offset + i⟩ : Lexeme)).filterMap
      Lexeme.token? = List.replicate n .closeParen := by
  simp [List.filterMap_map, Function.comp_def, Lexeme.token?, List.map_const']

/-! ## Completing a text -/

namespace Position

/-- At an operand, `n` closing parentheses close `n` open groups; anywhere else the first of them
fails. -/
theorem walk_closeParens_eq_some_iff {p : Position} {n : Nat} (hn : n ≠ 0) :
    walk (p, n) (List.replicate n .closeParen) = some (.operand, 0) ↔ p = .operand := by
  constructor
  · intro hw
    by_contra hp
    obtain ⟨m, rfl⟩ := Nat.exists_eq_succ_of_ne_zero hn
    simp [List.replicate_succ, walk, next, hp] at hw
  · rintro rfl
    exact walk_closeParens n

end Position

namespace Formula

/-- A text is a formula exactly when its lexemes are recognised and their tokens walk from the
start to an operand outside all groups. -/
theorem exists_parse_eq_ok_iff (t : String) :
    (∃ f, parse t = .ok f) ↔ (∀ l ∈ lex t, l.kind ≠ .unrecognised) ∧
      Position.walk (.opening, 0) ((lex t).filterMap Lexeme.token?) = some (.operand, 0) := by
  constructor
  · rintro ⟨f, hf⟩
    obtain ⟨hall, hwalk, -⟩ := (parse_eq_ok_iff_walk t f).mp hf
    exact ⟨hall, hwalk⟩
  · rintro ⟨hall, hwalk⟩
    exact ⟨⟨(lex t).filterMap Lexeme.token?⟩, (parse_eq_ok_iff_walk t _).mpr ⟨hall, hwalk, rfl⟩⟩

/-- A text reported with groups open or with a dangling end has recognised lexemes, whose tokens
the check walks to where the end checks fail: with groups open, as many as the fault counts, or
with none open and no operand at the end. -/
theorem walk_of_end_fault {s : String} {e : SyntaxError} (h : parse s = .error e)
    (hend : e.fault = .danglingEnd ∨ ∃ n, e.fault = .unclosedParenthesis n) :
    ∃ p d, (∀ l ∈ lex s, l.kind ≠ .unrecognised) ∧
      Position.walk (.opening, 0) ((lex s).filterMap Lexeme.token?) = some (p, d) ∧
      ((d ≠ 0 ∧ e.fault = .unclosedParenthesis d) ∨
        (d = 0 ∧ p ≠ .operand ∧ e.fault = .danglingEnd)) := by
  have hatEnd : e.fault.atEnd = true := by
    rcases hend with hf | ⟨n, hf⟩ <;> simp [hf, SyntaxFault.atEnd]
  rcases parse_eq_error_cases h with
    ⟨-, rfl⟩ | ⟨pre, l, post, st, -, -, hstep⟩ | ⟨last, st, -, hrun, hfin⟩
  · rcases hend with hf | ⟨n, hf⟩ <;> cases hf
  · -- a step never reports a fault of the end
    have hstepEnd := (Checker.step_eq_error_span hstep).2.2
    rw [hatEnd] at hstepEnd
    cases hstepEnd
  · obtain ⟨hall, hwalk, -⟩ := Checker.run_eq_ok_iff.mp hrun
    obtain ⟨-, -, hfault⟩ := Checker.finish_eq_error hfin
    exact ⟨st.position, st.depth, hall, hwalk, hfault⟩

/-- After a dangling end the check stands at an operator or `(` with every group closed. -/
theorem walk_of_danglingEnd {s : String} {e : SyntaxError} (h : parse s = .error e)
    (hf : e.fault = .danglingEnd) :
    ∃ p, (∀ l ∈ lex s, l.kind ≠ .unrecognised) ∧
      Position.walk (.opening, 0) ((lex s).filterMap Lexeme.token?) = some (p, 0) ∧
      p ≠ .operand := by
  obtain ⟨p, d, hall, hwalk, ⟨-, hf'⟩ | ⟨rfl, hp, -⟩⟩ := walk_of_end_fault h (.inl hf)
  · rw [hf] at hf'
    cases hf'
  · exact ⟨p, hall, hwalk, hp⟩

/-- With `n` groups reported open the check stands at depth `n`, and at an operand exactly when
the text's tokens end with one. -/
theorem walk_of_unclosedParenthesis {s : String} {e : SyntaxError} {n : Nat}
    (h : parse s = .error e) (hf : e.fault = .unclosedParenthesis n) :
    ∃ p, (∀ l ∈ lex s, l.kind ≠ .unrecognised) ∧
      Position.walk (.opening, 0) ((lex s).filterMap Lexeme.token?) = some (p, n) ∧ n ≠ 0 ∧
      (endsOperand ((lex s).filterMap Lexeme.token?) = true ↔ p = .operand) := by
  obtain ⟨p, d, hall, hwalk, hcase⟩ := walk_of_end_fault h (.inr ⟨n, hf⟩)
  obtain ⟨hd, rfl⟩ : d ≠ 0 ∧ n = d := by
    rcases hcase with ⟨hd, hf'⟩ | ⟨-, -, hf'⟩ <;> rw [hf] at hf'
    · exact ⟨hd, SyntaxFault.unclosedParenthesis.inj hf'⟩
    · cases hf'
  -- with a group open some token was read, and the walk ends where the last one leaves it
  have hne : (lex s).filterMap Lexeme.token? ≠ [] := by
    intro hnil
    rw [hnil] at hwalk
    simp only [Position.walk, Option.some.injEq, Prod.mk.injEq] at hwalk
    exact hd hwalk.2.symm
  refine ⟨p, hall, hwalk, hd, ?_⟩
  rw [← (Position.walk_counts hwalk).2 hne]
  simp

/-- After a dangling end, a space and a number make the text a formula. -/
theorem parse_append_one_of_danglingEnd {s : String} {e : SyntaxError} (h : parse s = .error e)
    (hf : e.fault = .danglingEnd) : ∃ f, parse (s ++ " 1") = .ok f := by
  obtain ⟨p, hall, hwalk, hp⟩ := walk_of_danglingEnd h hf
  rw [exists_parse_eq_ok_iff, lex_append_one]
  refine ⟨List.forall_mem_append.mpr ⟨hall, by simp⟩, ?_⟩
  -- the number is due after the operator or `(` at the end, and completes the formula
  rw [List.filterMap_append, Position.walk_append, hwalk]
  simp [Lexeme.token?, Position.walk, Position.next, hp]

/-- With `n` groups open, `n` closing parentheses make the text a formula exactly when its tokens
end with an operand. -/
theorem parse_append_closeParens_iff {s : String} {e : SyntaxError} {n : Nat}
    (h : parse s = .error e) (hf : e.fault = .unclosedParenthesis n) :
    (∃ f, parse (s ++ String.ofList (List.replicate n ')')) = .ok f) ↔
      endsOperand ((lex s).filterMap Lexeme.token?) = true := by
  obtain ⟨p, hall, hwalk, hn, hends⟩ := walk_of_unclosedParenthesis h hf
  rw [exists_parse_eq_ok_iff, lex_append_closeParens, hends, List.filterMap_append,
    filterMap_token?_closeParens, Position.walk_append, hwalk, Option.bind_some,
    Position.walk_closeParens_eq_some_iff hn]
  exact ⟨fun h => h.2, fun hp => ⟨List.forall_mem_append.mpr ⟨hall, by simp⟩, hp⟩⟩

/-- With `n` groups open after an operator or `(`, a number and then `n` closing parentheses make
the text a formula. -/
theorem parse_append_one_closeParens {s : String} {e : SyntaxError} {n : Nat}
    (h : parse s = .error e) (hf : e.fault = .unclosedParenthesis n)
    (hlast : endsOperand ((lex s).filterMap Lexeme.token?) = false) :
    ∃ f, parse (s ++ " 1" ++ String.ofList (List.replicate n ')')) = .ok f := by
  obtain ⟨p, hall, hwalk, -, hends⟩ := walk_of_unclosedParenthesis h hf
  have hp : p ≠ .operand := fun hp => by simp [hends.mpr hp] at hlast
  have hone : (⟨.number (Decimal.toFloat ⟨1, 0⟩), "1", s.utf8ByteSize + 1⟩ : Lexeme).token? =
      some (.number (Decimal.toFloat ⟨1, 0⟩) "1") := rfl
  rw [exists_parse_eq_ok_iff, lex_append_one_closeParens]
  refine ⟨List.forall_mem_append.mpr ⟨hall, by simp⟩, ?_⟩
  -- the number is due first; after it the parentheses close every group
  rw [List.filterMap_append, List.filterMap_cons_some hone, filterMap_token?_closeParens,
    Position.walk_append, hwalk, Option.bind_some]
  simp [Position.walk, Position.next, hp, Position.walk_closeParens]

end Formula

open Formula in
/-- A text that fails at its end is mended as the help for its fault says, but for one case.
After a dangling end, a space and a number make it a formula. With `n` groups open, `n` closing
parentheses make it a formula exactly when its tokens end with an operand (a number, a name or a
`)`); when they end with an operator or `(`, as in `((`, they do not, and a number written before
the parentheses makes it a formula. -/
theorem parse_end_fault_completion (s : String) (e : SyntaxError) (h : parse s = .error e) :
    (e.fault = .danglingEnd → ∃ f, parse (s ++ " 1") = .ok f) ∧
      ∀ n, e.fault = .unclosedParenthesis n →
        ((∃ f, parse (s ++ String.ofList (List.replicate n ')')) = .ok f) ↔
          endsOperand ((lex s).filterMap Lexeme.token?) = true) ∧
        (endsOperand ((lex s).filterMap Lexeme.token?) = false →
          ∃ f, parse (s ++ " 1" ++ String.ofList (List.replicate n ')')) = .ok f) :=
  ⟨parse_append_one_of_danglingEnd h,
    fun _ hf => ⟨parse_append_closeParens_iff h hf, parse_append_one_closeParens h hf⟩⟩

/-- In "((x" the text ends with a name: the two `)` the help asks for make it a formula. -/
theorem parse_end_fault_completion_nested_name :
    Formula.parse "((x" = .error ⟨.unclosedParenthesis 2, 2, 1⟩ ∧
      ∃ f, Formula.parse ("((x" ++ String.ofList (List.replicate 2 ')')) = .ok f := by
  have hparse : Formula.parse "((x" = .error ⟨.unclosedParenthesis 2, 2, 1⟩ := by
    rw [Formula.parse, lex_eq_lexWithin]
    rfl
  have hends : endsOperand ((lex "((x").filterMap Lexeme.token?) = true := by
    rw [lex_eq_lexWithin]
    rfl
  exact ⟨hparse, ((parse_end_fault_completion "((x" _ hparse).2 2 rfl).1.mpr hends⟩

/-- "((" is reported with two groups open, yet followed by the two `)` its help asks for it is
no formula: the first `)` closes an empty group. -/
theorem parse_two_open_then_closed :
    Formula.parse "((" = .error ⟨.unclosedParenthesis 2, 1, 1⟩ ∧
      Formula.parse ("((" ++ String.ofList (List.replicate 2 ')')) =
        .error ⟨.emptyGroup, 2, 1⟩ := by
  constructor
  · rw [Formula.parse, lex_eq_lexWithin]
    rfl
  · rw [Formula.parse, lex_eq_lexWithin]
    rfl

end Formulas
