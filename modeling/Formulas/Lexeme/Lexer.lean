import Formulas.Lexeme
import Formulas.Text.Blank
import Formulas.Decimal.Read
/-!
# Cutting text into lexemes

Blanks separate lexemes and are dropped. At any other character the longest lexeme that starts
there is taken: a parenthesis or operator is one character; a name runs over ASCII letters and
digits; a number is `(d+.d* | d*.d+ | d+)` followed by an exponent `[eE][+-]?d+` only when the
exponent has a digit. A character that starts none of these opens an unrecognised run, which
ends before a blank or before a character that does start a lexeme.

One call of the lexer (`next`) skips blanks and cuts one lexeme; the lexemes of a text
(`lexFrom`) are what the calls give until only blanks remain.
-/

namespace Formulas.Lexer

open Text

/-- ASCII letters and digits. -/
def isAsciiAlnum (c : Char) : Bool := c.isAlpha || c.isDigit

/-- Whether the text starts with an ASCII digit. -/
def startsWithDigit : List Char → Bool
  | c :: _ => c.isDigit
  | [] => false

/-- Whether a lexeme other than an unrecognised run starts the text: a parenthesis, an operator,
an ASCII letter or digit, or a point before a digit. -/
def startsLexeme : List Char → Bool
  | c :: rest =>
    c = '(' || c = ')' || (Operator.ofChar? c).isSome || isAsciiAlnum c ||
      (c = '.' && startsWithDigit rest)
  | [] => false

/-- The number of ASCII digits that start the text. -/
def digitRun (cs : List Char) : Nat := (cs.takeWhile Char.isDigit).length

/-- The length of the exponent part that starts the text: `e` or `E`, an optional sign and at
least one digit; zero when the text does not start with one. -/
def exponentLength : List Char → Nat
  | c :: rest =>
    if c = 'e' ∨ c = 'E' then
      match rest with
      | s :: ds =>
        if s = '+' ∨ s = '-' then
          (if digitRun ds = 0 then 0 else 2 + digitRun ds)
        else (if digitRun rest = 0 then 0 else 1 + digitRun rest)
      | [] => 0
    else 0
  | [] => 0

/-- The length of the longest number literal that starts the text. A point belongs to it when a
digit stands on one side of it at least. -/
def numberLength (cs : List Char) : Nat :=
  let whole := digitRun cs
  let mantissa := match cs.drop whole with
    | '.' :: rest =>
      let frac := digitRun rest
      if whole = 0 ∧ frac = 0 then whole else whole + 1 + frac
    | _ => whole
  mantissa + exponentLength (cs.drop mantissa)

/-- The length of an unrecognised run's continuation: the characters up to the next blank or
the next start of a lexeme. -/
def unrecognisedLength : List Char → Nat
  | [] => 0
  | c :: rest =>
    if isBlank c || startsLexeme (c :: rest) then 0 else 1 + unrecognisedLength rest

/-- The class of the lexeme that starts with `c` followed by `rest`, and how many characters of
`rest` it takes. `c` is not blank. -/
def classify (c : Char) (rest : List Char) : LexemeKind × Nat :=
  match Operator.ofChar? c with
  | some o => (.operator o, 0)
  | none =>
    if c = '(' then (.openParen, 0)
    else if c = ')' then (.closeParen, 0)
    else if c.isAlpha then (.name, (rest.takeWhile isAsciiAlnum).length)
    else if c.isDigit || (c = '.' && startsWithDigit rest) then
      let n := numberLength (c :: rest) - 1
      match Decimal.readBody? (c :: rest.take n) with
      | some d => (.number d.toFloat, n)
      | none => (.unrecognised, n)
    else (.unrecognised, unrecognisedLength rest)

/-- The number of UTF-8 bytes of some characters. -/
def byteLength (cs : List Char) : Nat := cs.foldl (fun n c => n + c.utf8Size) 0

/-- One call of the lexer on text that starts at byte `offset`: skip the blanks that start the
text, then cut the lexeme at the first other character. It gives the lexeme, the offset after it
and the text left unread, or nothing when only blanks remain. -/
def next (offset : Nat) : List Char → Option (Lexeme × Nat × List Char)
  | [] => none
  | c :: rest =>
    if isBlank c then next (offset + c.utf8Size) rest
    else
      let (kind, n) := classify c rest
      let text := c :: rest.take n
      some (⟨kind, String.ofList text, offset⟩, offset + byteLength text, rest.drop n)

theorem next_nil (offset : Nat) : next offset [] = none := rfl

theorem next_blank {offset : Nat} {c : Char} (rest : List Char) (h : isBlank c = true) :
    next offset (c :: rest) = next (offset + c.utf8Size) rest := by
  rw [next, if_pos h]

theorem next_lexeme {offset : Nat} {c : Char} (rest : List Char) (h : isBlank c = false) :
    next offset (c :: rest) =
      some (⟨(classify c rest).1, String.ofList (c :: rest.take (classify c rest).2), offset⟩,
        offset + byteLength (c :: rest.take (classify c rest).2),
        rest.drop (classify c rest).2) := by
  rw [next, if_neg (by simp [h])]

/-- A call that gives a lexeme leaves less text unread than it was given. -/
theorem length_lt_of_next : ∀ {offset : Nat} {cs : List Char} {l : Lexeme} {offset' : Nat}
    {rest : List Char}, next offset cs = some (l, offset', rest) → rest.length < cs.length
  | _, [], _, _, _, h => by simp [next_nil] at h
  | offset, c :: cs, l, offset', rest, h => by
    cases hb : isBlank c
    · rw [next_lexeme cs hb, Option.some.injEq, Prod.mk.injEq, Prod.mk.injEq] at h
      rw [← h.2.2, List.length_drop, List.length_cons]
      omega
    · rw [next_blank cs hb] at h
      have := length_lt_of_next h
      rw [List.length_cons]
      omega

-- the match hypothesis is read only by the termination proof
set_option linter.unusedVariables false in
/-- The lexemes of text that starts at byte `offset`, in order: the lexer called until it gives
nothing. Each call leaves less text unread, so the calls end. -/
def lexFrom (offset : Nat) (cs : List Char) : List Lexeme :=
  match h : next offset cs with
  | none => []
  | some (l, offset', rest) => l :: lexFrom offset' rest
termination_by cs.length
decreasing_by exact length_lt_of_next h

theorem lexFrom_of_next_none {offset : Nat} {cs : List Char} (h : next offset cs = none) :
    lexFrom offset cs = [] := by
  rw [lexFrom]
  split <;> simp_all

theorem lexFrom_of_next_some {offset : Nat} {cs : List Char} {l : Lexeme} {offset' : Nat}
    {rest : List Char} (h : next offset cs = some (l, offset', rest)) :
    lexFrom offset cs = l :: lexFrom offset' rest := by
  rw [lexFrom]
  split <;> simp_all

theorem lexFrom_nil (offset : Nat) : lexFrom offset [] = [] :=
  lexFrom_of_next_none (next_nil offset)

theorem lexFrom_blank {offset : Nat} {c : Char} (rest : List Char) (h : isBlank c = true) :
    lexFrom offset (c :: rest) = lexFrom (offset + c.utf8Size) rest := by
  cases hn : next (offset + c.utf8Size) rest with
  | none =>
    rw [lexFrom_of_next_none hn, lexFrom_of_next_none ((next_blank rest h).trans hn)]
  | some r =>
    obtain ⟨l, offset', rest'⟩ := r
    rw [lexFrom_of_next_some hn, lexFrom_of_next_some ((next_blank rest h).trans hn)]

theorem lexFrom_lexeme {offset : Nat} {c : Char} (rest : List Char) (h : isBlank c = false) :
    lexFrom offset (c :: rest) =
      ⟨(classify c rest).1, String.ofList (c :: rest.take (classify c rest).2), offset⟩ ::
        lexFrom (offset + byteLength (c :: rest.take (classify c rest).2))
          (rest.drop (classify c rest).2) :=
  lexFrom_of_next_some (next_lexeme rest h)

/-- No lexeme is longer than the text it was cut from. -/
theorem length_text_le : ∀ {offset : Nat} {cs : List Char} {l : Lexeme},
    l ∈ lexFrom offset cs → l.text.length ≤ cs.length
  | _, [], _, h => by simp [lexFrom_nil] at h
  | offset, c :: rest, l, h => by
    cases hb : isBlank c
    · rw [lexFrom_lexeme rest hb, List.mem_cons] at h
      rcases h with h | h
      · subst h
        simp only [String.length_ofList, List.length_cons, List.length_take]
        omega
      · have := length_text_le h
        simp only [List.length_drop, List.length_cons] at this ⊢
        omega
    · rw [lexFrom_blank rest hb] at h
      have := length_text_le h
      simp only [List.length_cons]
      omega
termination_by _ cs => cs.length
decreasing_by
  all_goals simp only [List.length_cons, List.length_drop]
  all_goals omega

/-- A letter is not blank. -/
theorem isBlank_of_isAlpha {c : Char} (h : c.isAlpha = true) : isBlank c = false := by
  have hA : ('A' : Char).val.toNat = 65 := rfl
  have hZ : ('Z' : Char).val.toNat = 90 := rfl
  have ha : ('a' : Char).val.toNat = 97 := rfl
  have hz : ('z' : Char).val.toNat = 122 := rfl
  have hn : c.toNat = c.val.toNat := rfl
  have hc : c.isAlpha = (decide (c.val ≥ 'A'.val ∧ c.val ≤ 'Z'.val) ||
      (decide (c.val ≥ 'a'.val) && decide (c.val ≤ 'z'.val))) := rfl
  rw [hc] at h
  simp only [Bool.or_eq_true, Bool.and_eq_true, decide_eq_true_eq] at h
  simp only [isBlank, blankRanges, List.any_cons, List.any_nil, Bool.or_false,
    Bool.or_eq_false_iff, Bool.and_eq_false_iff, decide_eq_false_iff_not, Nat.not_le]
  rcases h with ⟨h2, h3⟩ | ⟨h2, h3⟩ <;>
  · simp only [ge_iff_le, UInt32.le_iff_toNat_le] at h2 h3
    omega

/-- A letter starts a name, which takes the letters and digits after it. -/
theorem classify_of_isAlpha {c : Char} (rest : List Char) (h : c.isAlpha = true) :
    classify c rest = (.name, (rest.takeWhile isAsciiAlnum).length) := by
  have hop : Operator.ofChar? c = none := by
    unfold Operator.ofChar?
    split <;> first | rfl | (exfalso; revert h; decide)
  have hl : c ≠ '(' := by rintro rfl; exact absurd h (by decide)
  have hr : c ≠ ')' := by rintro rfl; exact absurd h (by decide)
  simp [classify, hop, hl, hr, h]

/-- Only a letter starts a name, and the name takes the letters and digits after it. -/
theorem isAlpha_of_classify_name {c : Char} {rest : List Char}
    (h : (classify c rest).1 = .name) :
    c.isAlpha = true ∧ (classify c rest).2 = (rest.takeWhile isAsciiAlnum).length := by
  by_cases ha : c.isAlpha = true
  · exact ⟨ha, by rw [classify_of_isAlpha rest ha]⟩
  · exfalso
    unfold classify at h
    cases hop : Operator.ofChar? c with
    | some o => simp [hop] at h
    | none =>
      simp only [hop] at h
      by_cases h1 : c = '('
      · simp [h1] at h
      · by_cases h2 : c = ')'
        · simp [h2] at h
        · simp only [h1, h2, ha, if_false, Bool.false_eq_true] at h
          split at h
          · split at h <;> simp at h
          · simp at h

end Formulas.Lexer

namespace Formulas

/-- The lexemes of a formula text, in order. -/
def lex (s : String) : List Lexeme := Lexer.lexFrom 0 s.toList

end Formulas
