import Formulas.Proofs.Spans
/-!
# Every call of the lexer makes progress

One call of the lexer skips the blanks at the start of the unread text and cuts one lexeme at
the first other character. It gives nothing exactly when only blanks are left. Otherwise the text
it was given is the blanks it skipped, the lexeme's text and what it leaves unread, in that order,
and the lexeme's text is never empty; the byte counter moves over the blanks to the lexeme's
offset and over the lexeme to the offset of the next call. So each call leaves strictly less to
read: this is the measure by which `lexFrom`, the calls repeated until nothing is left, ends. Each
lexeme takes a byte at least, so a text has no more lexemes than bytes.

The number scanner is called only where a number can start, at a digit or at a point before a
digit; there it always takes the first character (`numberLength_pos`), so the lexeme the call
cuts is the number the scanner found. Main statement: `lexer_call_progress`.

Since each call reads a character at least, as many calls as the text has characters read all of
it (`lexFrom_eq_lexWithin`). The lexer with that many calls recurses on the count, so the lexemes
of a closed text are computed by `rfl`.
-/

namespace Formulas.Lexer

open Text

/-- One call gives nothing exactly when only blanks are left to read. -/
theorem next_eq_none_iff (offset : Nat) (cs : List Char) :
    next offset cs = none ↔ ∀ c ∈ cs, isBlank c = true := by
  induction cs generalizing offset with
  | nil => simp [next_nil]
  | cons c rest ih =>
    cases hb : isBlank c
    · simp [next_lexeme rest hb, hb]
    · simp [next_blank rest hb, ih, hb]

/-- What one call that gives a lexeme did: it skipped some blanks, then cut a lexeme with a
nonempty text, and left the rest unread. The lexeme starts after the blanks' bytes, and the next
call starts after the lexeme's. -/
theorem next_eq_some {offset : Nat} {cs : List Char} {l : Lexeme} {offset' : Nat}
    {rest : List Char} (h : next offset cs = some (l, offset', rest)) :
    ∃ blanks, (∀ c ∈ blanks, isBlank c = true) ∧ l.text ≠ "" ∧
      cs = blanks ++ l.text.toList ++ rest ∧ l.offset = offset + byteLength blanks ∧
      offset' = l.offset + l.length := by
  fun_induction next offset cs with
  | case1 => simp at h
  | case2 offset c more hb ih =>
    -- the blank joins the blanks that the rest of the call skips
    obtain ⟨blanks, hblanks, hne, hcs, hoff, hnext⟩ := ih h
    refine ⟨c :: blanks, ?_, hne, by rw [hcs, List.cons_append, List.cons_append], ?_, hnext⟩
    · intro b hb'
      rcases List.mem_cons.mp hb' with rfl | hb'
      · exact hb
      · exact hblanks b hb'
    · rw [hoff, byteLength_cons]
      omega
  | case3 offset c more hb kind n hcl text =>
    rw [Option.some.injEq, Prod.mk.injEq, Prod.mk.injEq] at h
    obtain ⟨rfl, rfl, rfl⟩ := h
    have hlen : (⟨kind, String.ofList text, offset⟩ : Lexeme).length = byteLength text :=
      lexeme_length_ofList kind text offset
    refine ⟨[], by simp, ?_, ?_, by simp, by rw [hlen]⟩
    · intro he
      have := congrArg String.toList he
      simp [text] at this
    · simp [text, List.take_append_drop]

/-- Each lexeme takes one byte at least, so there are no more lexemes than bytes. -/
theorem length_lexFrom_le (offset : Nat) (cs : List Char) :
    (lexFrom offset cs).length ≤ byteLength cs := by
  fun_induction lexFrom offset cs with
  | case1 => simp
  | case2 offset cs l offset' rest hn ih =>
    obtain ⟨blanks, -, hne, hcs, -, -⟩ := next_eq_some hn
    have htext : 0 < byteLength l.text.toList := by
      rw [← utf8ByteSize_eq_byteLength]
      exact Nat.pos_of_ne_zero fun hz => hne (String.utf8ByteSize_eq_zero_iff.mp hz)
    rw [hcs, byteLength_append, byteLength_append, List.length_cons]
    omega

/-- Each call of the lexer either gives nothing, exactly when only blanks are left to read, or
gives a lexeme after skipping some blanks: the text it was given is those blanks, the lexeme's
nonempty text and the text it leaves unread, and its byte counter moves over the blanks to the
lexeme's offset and over the lexeme to the next call's. So the calls end, and a text has no more
lexemes than bytes. The number scanner takes the first character at least wherever it is called:
at a digit, or at a point before a digit. -/
theorem lexer_call_progress :
    (∀ offset cs, next offset cs = none ↔ ∀ c ∈ cs, isBlank c = true) ∧
      (∀ offset cs l offset' rest, next offset cs = some (l, offset', rest) →
        ∃ blanks, (∀ c ∈ blanks, isBlank c = true) ∧ l.text ≠ "" ∧
          cs = blanks ++ l.text.toList ++ rest ∧ l.offset = offset + byteLength blanks ∧
          offset' = l.offset + l.length) ∧
      (∀ s : String, (lex s).length ≤ s.utf8ByteSize) ∧
      (∀ c rest, (c.isDigit || (c = '.' && startsWithDigit rest)) = true →
        0 < numberLength (c :: rest)) := by
  refine ⟨next_eq_none_iff, fun _ _ _ _ _ h => next_eq_some h, fun s => ?_,
    fun _ _ h => numberLength_pos h⟩
  rw [utf8ByteSize_eq_byteLength]
  exact length_lexFrom_le 0 s.toList

/-! ## No more calls than characters -/

/-- The lexer called at most `fuel` times. Its recursion is on the count, so on a closed text it
evaluates by `rfl`. -/
def lexWithin : Nat → Nat → List Char → List Lexeme
  | 0, _, _ => []
  | fuel + 1, offset, cs =>
    match next offset cs with
    | none => []
    | some (l, offset', rest) => l :: lexWithin fuel offset' rest

/-- A call for each character is enough: with that many calls the lexer has read the whole
text. -/
theorem lexFrom_eq_lexWithin : ∀ (fuel : Nat) {offset : Nat} {cs : List Char},
    cs.length ≤ fuel → lexFrom offset cs = lexWithin fuel offset cs
  | 0, offset, cs, h => by
    rw [List.length_eq_zero_iff.mp (Nat.le_zero.mp h), lexFrom_nil, lexWithin]
  | fuel + 1, offset, cs, h => by
    rw [lexWithin]
    cases hn : next offset cs with
    | none => exact lexFrom_of_next_none hn
    | some r =>
      obtain ⟨l, offset', rest⟩ := r
      -- the call leaves fewer characters than it was given, so one call less is enough for them
      have hrest := length_lt_of_next hn
      rw [lexFrom_of_next_some hn, lexFrom_eq_lexWithin fuel (by omega)]

end Formulas.Lexer

namespace Formulas

/-- The lexemes of a text are those of the lexer called once for each of its characters. -/
theorem lex_eq_lexWithin (s : String) : lex s = Lexer.lexWithin s.toList.length 0 s.toList :=
  Lexer.lexFrom_eq_lexWithin _ (Nat.le_refl _)

/-- An ideographic space takes three bytes and `é` two: offsets count bytes, not characters. -/
example : lex "x　+é" = [⟨.name, "x", 0⟩, ⟨.operator .plus, "+", 4⟩, ⟨.unrecognised, "é", 5⟩] := by
  rw [lex_eq_lexWithin]
  rfl

end Formulas
