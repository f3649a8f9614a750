import Mathlib.Data.List.TakeWhile
import Formulas.Lexeme.Lexer
/-!
# Lexemes are cut by their own characters

The lexer decides where a lexeme ends by looking at the characters after it. The decision
depends on the lexeme's own characters only: cut the text right after a lexeme, close it with a
space, a `)` or the end of the text, and the lexer reads the same lexeme again. Names stop at the
first character that is no letter or digit. Numbers need the work: the three shapes the number
scanner tells apart (digits around a point, a point alone, digits with no point) are read off
once, and each part of a number, its digit runs and its exponent, stops before a closing space
as it stopped in the original text. An unrecognised run looks one character further, since a
point opens a number only before a digit; a space is no digit, so the run goes on at each of its
characters as before and ends at the space. A `)` closes alike: it is no digit, no sign and no
point, and it starts a lexeme of its own. Main statements: `classify_take_append` and
`lexFrom_cut`.
-/

namespace Formulas.Lexer

/-- Text that no lexeme runs on into: the end of the text, or a space or a `)` next. -/
def Closes : List Char → Prop
  | [] => True
  | c :: _ => c = ' ' ∨ c = ')'

theorem digitRun_cons_of_isDigit_false {c : Char} (cs : List Char) (h : c.isDigit = false) :
    digitRun (c :: cs) = 0 := by
  simp [digitRun, h]

theorem digitRun_cons_eq_zero {c : Char} {cs : List Char} :
    digitRun (c :: cs) = 0 ↔ c.isDigit = false := by
  cases h : c.isDigit <;> simp [digitRun, h]

theorem digitRun_append_of_digits {ws : List Char} (ys : List Char)
    (h : ∀ c ∈ ws, c.isDigit = true) : digitRun (ws ++ ys) = ws.length + digitRun ys := by
  simp [digitRun, List.takeWhile_append_of_pos h]

theorem digitRun_le_length (cs : List Char) : digitRun cs ≤ cs.length :=
  (List.takeWhile_sublist _).length_le

/-- The longest passing prefix is the prefix of its own length. -/
theorem take_length_takeWhile {p : Char → Bool} (cs : List Char) :
    cs.take (cs.takeWhile p).length = cs.takeWhile p :=
  (List.prefix_iff_eq_take.mp (List.takeWhile_prefix p)).symm

theorem take_digitRun (cs : List Char) : cs.take (digitRun cs) = cs.takeWhile Char.isDigit :=
  take_length_takeWhile cs

theorem drop_digitRun (cs : List Char) : cs.drop (digitRun cs) = cs.dropWhile Char.isDigit := by
  have h := (List.takeWhile_append_dropWhile (p := Char.isDigit) (l := cs)).trans
    (List.take_append_drop (digitRun cs) cs).symm
  rw [← take_digitRun] at h
  exact (List.append_cancel_left h).symm

/-- After its run of digits the text goes on with something else. -/
theorem digitRun_drop_digitRun (cs : List Char) : digitRun (cs.drop (digitRun cs)) = 0 := by
  rw [drop_digitRun]
  cases h : cs.dropWhile Char.isDigit with
  | nil => rfl
  | cons c rest =>
    have hc := List.head_dropWhile_not Char.isDigit (l := cs) (by simp [h])
    simp only [h, List.head_cons] at hc
    exact digitRun_cons_of_isDigit_false rest hc

/-- Every text is its run of digits followed by text that starts with no digit. -/
theorem exists_digits_append (cs : List Char) :
    ∃ ws r, cs = ws ++ r ∧ (∀ c ∈ ws, c.isDigit = true) ∧ digitRun r = 0 := by
  refine ⟨_, _, (List.take_append_drop (digitRun cs) cs).symm, fun c hc => ?_,
    digitRun_drop_digitRun cs⟩
  rw [take_digitRun] at hc
  exact List.mem_takeWhile_imp hc

/-- A run of digits read again before text with no digit is read whole. -/
theorem digitRun_take_append (cs : List Char) {tail : List Char} (ht : digitRun tail = 0) :
    digitRun (cs.take (digitRun cs) ++ tail) = digitRun cs := by
  rw [digitRun_append_of_digits tail, ht, take_digitRun]
  · rfl
  · intro c hc
    rw [take_digitRun] at hc
    exact List.mem_takeWhile_imp hc

/-- A prefix of text with no leading digit, before text with no leading digit, has none. -/
theorem digitRun_take_append_of_zero {r : List Char} (k : Nat) {tail : List Char}
    (hr : digitRun r = 0) (ht : digitRun tail = 0) : digitRun (r.take k ++ tail) = 0 := by
  cases r with
  | nil => simpa using ht
  | cons c rest =>
    cases k with
    | zero => simpa using ht
    | succ k => exact digitRun_cons_eq_zero.2 (digitRun_cons_eq_zero.1 hr)

theorem head?_take_append_ne {r tail : List Char} {c : Char} (k : Nat) (hr : r.head? ≠ some c)
    (ht : tail.head? ≠ some c) : (r.take k ++ tail).head? ≠ some c := by
  cases r with
  | nil => simpa using ht
  | cons d rest =>
    cases k with
    | zero => simpa using ht
    | succ k => simpa using hr

namespace Closes

variable {tail : List Char}

theorem digitRun_eq_zero (h : Closes tail) : digitRun tail = 0 := by
  cases tail with
  | nil => rfl
  | cons c _ =>
    rcases h with rfl | rfl
    · exact digitRun_cons_of_isDigit_false _ rfl
    · exact digitRun_cons_of_isDigit_false _ rfl

theorem exponentLength_eq_zero (h : Closes tail) : exponentLength tail = 0 := by
  cases tail with
  | nil => rfl
  | cons c _ => rcases h with rfl | rfl <;> simp [exponentLength]

theorem head?_ne_point (h : Closes tail) : tail.head? ≠ some '.' := by
  cases tail with
  | nil => simp
  | cons c _ => rcases h with rfl | rfl <;> simp

theorem startsWithDigit_eq_false (h : Closes tail) : startsWithDigit tail = false := by
  cases tail with
  | nil => rfl
  | cons c _ => rcases h with rfl | rfl <;> simp [startsWithDigit]

theorem takeWhile_isAsciiAlnum (h : Closes tail) : tail.takeWhile isAsciiAlnum = [] := by
  cases tail with
  | nil => rfl
  | cons c _ => rcases h with rfl | rfl <;> simp [isAsciiAlnum]

end Closes

theorem exponentLength_le_length (xs : List Char) : exponentLength xs ≤ xs.length := by
  match xs with
  | [] => simp [exponentLength]
  | [c] => simp [exponentLength]
  | c :: s :: ds =>
    have h1 := digitRun_le_length ds
    have h2 := digitRun_le_length (s :: ds)
    simp only [exponentLength, List.length_cons] at h2 ⊢
    split_ifs <;> omega

/-- An exponent read again before a closing space is read whole: its sign and digits are the
same, and its digit run stops at the space. -/
theorem exponentLength_take_append (xs : List Char) {tail : List Char} (ht : Closes tail) :
    exponentLength (xs.take (exponentLength xs) ++ tail) = exponentLength xs := by
  have htail := ht.exponentLength_eq_zero
  have hrun := ht.digitRun_eq_zero
  match xs with
  | [] => simpa [exponentLength] using htail
  | [c] => simpa [exponentLength] using htail
  | c :: s :: ds =>
    by_cases hc : c = 'e' ∨ c = 'E'
    · by_cases hs : s = '+' ∨ s = '-'
      · by_cases hd : digitRun ds = 0
        · simpa [exponentLength, hc, hs, hd] using htail
        · have hD := digitRun_take_append ds hrun
          simp [exponentLength, hc, hs, hd, Nat.add_comm 2, hD]
      · by_cases hd : digitRun (s :: ds) = 0
        · simpa [exponentLength, hc, hs, hd] using htail
        · have hD := digitRun_take_append (s :: ds) hrun
          obtain ⟨k, hk⟩ := Nat.exists_eq_succ_of_ne_zero hd
          rw [hk, List.take_succ_cons, List.cons_append] at hD
          simp [exponentLength, hc, hs, hk, hD, Nat.add_comm 1]
    · simpa [exponentLength, hc] using htail

/-- Digits, a point and digits, with a digit on one side at least, make the mantissa; the
exponent follows. -/
theorem numberLength_point {ws fs rest : List Char} (hws : ∀ c ∈ ws, c.isDigit = true)
    (hfs : ∀ c ∈ fs, c.isDigit = true) (hrest : digitRun rest = 0) (h : 0 < ws.length + fs.length) :
    numberLength (ws ++ '.' :: (fs ++ rest)) = ws.length + 1 + fs.length + exponentLength rest := by
  have hW : digitRun (ws ++ '.' :: (fs ++ rest)) = ws.length := by
    rw [digitRun_append_of_digits _ hws, digitRun_cons_of_isDigit_false _ rfl, Nat.add_zero]
  have hF : digitRun (fs ++ rest) = fs.length := by
    rw [digitRun_append_of_digits _ hfs, hrest, Nat.add_zero]
  have hdrop : (ws ++ '.' :: (fs ++ rest)).drop (ws.length + 1 + fs.length) = rest := by
    simp [List.drop_append, Nat.add_assoc, Nat.add_comm 1]
  have hsome : ¬(ws.length = 0 ∧ fs.length = 0) := by omega
  simp only [numberLength, hW, List.drop_left, hF, if_neg hsome, hdrop]

/-- Digits with no point after them make the mantissa; the exponent follows. -/
theorem numberLength_whole {ws rest : List Char} (hws : ∀ c ∈ ws, c.isDigit = true)
    (hrest : digitRun rest = 0) (hpoint : rest.head? ≠ some '.') :
    numberLength (ws ++ rest) = ws.length + exponentLength rest := by
  have hW : digitRun (ws ++ rest) = ws.length := by
    rw [digitRun_append_of_digits _ hws, hrest, Nat.add_zero]
  simp only [numberLength, hW, List.drop_left]
  split
  · exact absurd rfl hpoint
  · rw [List.drop_left]

/-- A point with no digit on either side starts no number. -/
theorem numberLength_lone_point {rest : List Char} (hrest : digitRun rest = 0) :
    numberLength ('.' :: rest) = 0 := by
  simp [numberLength, digitRun_cons_of_isDigit_false, hrest, exponentLength]

theorem Closes.numberLength_eq_zero {tail : List Char} (ht : Closes tail) :
    numberLength tail = 0 := by
  simpa [ht.exponentLength_eq_zero] using
    @numberLength_whole [] tail (by simp) ht.digitRun_eq_zero ht.head?_ne_point

/-- The three shapes of text as the number scanner sees them: digits, a point and digits with
a digit on one side at least; a point with no digit on either side; digits and no point. -/
theorem numberLength_cases (cs : List Char) :
    (∃ ws fs r, cs = ws ++ '.' :: (fs ++ r) ∧ (∀ c ∈ ws, c.isDigit = true) ∧
      (∀ c ∈ fs, c.isDigit = true) ∧ digitRun r = 0 ∧ 0 < ws.length + fs.length ∧
      numberLength cs = ws.length + 1 + fs.length + exponentLength r) ∨
    (∃ r, cs = '.' :: r ∧ digitRun r = 0 ∧ numberLength cs = 0) ∨
    (∃ ws r, cs = ws ++ r ∧ (∀ c ∈ ws, c.isDigit = true) ∧ digitRun r = 0 ∧
      r.head? ≠ some '.' ∧ numberLength cs = ws.length + exponentLength r) := by
  obtain ⟨ws, r, rfl, hws, hr⟩ := exists_digits_append cs
  by_cases hpoint : r.head? = some '.'
  · obtain ⟨rest, rfl⟩ : ∃ rest, r = '.' :: rest := by
      cases r with
      | nil => cases hpoint
      | cons c rest => exact ⟨rest, by simpa using hpoint⟩
    obtain ⟨fs, r3, rfl, hfs, hr3⟩ := exists_digits_append rest
    by_cases hnum : 0 < ws.length + fs.length
    · exact .inl ⟨ws, fs, r3, rfl, hws, hfs, hr3, hnum, numberLength_point hws hfs hr3 hnum⟩
    · have hws0 : ws = [] := List.length_eq_zero_iff.1 (by omega)
      have hfs0 : fs = [] := List.length_eq_zero_iff.1 (by omega)
      subst hws0 hfs0
      exact .inr (.inl ⟨r3, rfl, hr3, numberLength_lone_point hr3⟩)
  · exact .inr (.inr ⟨ws, r, rfl, hws, hr, hpoint, numberLength_whole hws hr hpoint⟩)

/-- A number read again before a closing space is read whole. -/
theorem numberLength_take_append (cs : List Char) {tail : List Char} (ht : Closes tail) :
    numberLength (cs.take (numberLength cs) ++ tail) = numberLength cs := by
  have hrun := ht.digitRun_eq_zero
  rcases numberLength_cases cs with
    ⟨ws, fs, r, rfl, hws, hfs, hr, hnum, hlen⟩ | ⟨r, rfl, hr, hlen⟩ |
      ⟨ws, r, rfl, hws, hr, hpoint, hlen⟩
  · -- the mantissa is all of the text up to the exponent
    have htake : (ws ++ '.' :: (fs ++ r)).take (ws.length + 1 + fs.length + exponentLength r)
        ++ tail = ws ++ '.' :: (fs ++ (r.take (exponentLength r) ++ tail)) := by
      rw [show ws.length + 1 + fs.length + exponentLength r
          = ws.length + (fs.length + exponentLength r + 1) by omega,
        List.take_append, List.take_of_length_le (by omega), Nat.add_sub_cancel_left,
        List.take_succ_cons, List.take_append, List.take_of_length_le (by omega),
        Nat.add_sub_cancel_left]
      simp
    rw [hlen, htake, numberLength_point hws hfs (digitRun_take_append_of_zero _ hr hrun) hnum,
      exponentLength_take_append r ht]
  · rw [hlen, List.take_zero, List.nil_append, ht.numberLength_eq_zero]
  · have htake : (ws ++ r).take (ws.length + exponentLength r) ++ tail
        = ws ++ (r.take (exponentLength r) ++ tail) := by
      rw [List.take_append, List.take_of_length_le (by omega), Nat.add_sub_cancel_left,
        List.append_assoc]
    rw [hlen, htake,
      numberLength_whole hws (digitRun_take_append_of_zero _ hr hrun)
        (head?_take_append_ne _ hpoint ht.head?_ne_point),
      exponentLength_take_append r ht]

theorem numberLength_le_length (cs : List Char) : numberLength cs ≤ cs.length := by
  rcases numberLength_cases cs with
    ⟨ws, fs, r, rfl, -, -, -, -, hlen⟩ | ⟨r, rfl, -, hlen⟩ | ⟨ws, r, rfl, -, -, -, hlen⟩
  · have := exponentLength_le_length r
    simp only [hlen, List.length_append, List.length_cons]
    omega
  · omega
  · have := exponentLength_le_length r
    simp only [hlen, List.length_append]
    omega

/-- A point before a digit starts a number of two characters at least. -/
theorem two_le_numberLength_point {rest : List Char} (h : startsWithDigit rest = true) :
    2 ≤ numberLength ('.' :: rest) := by
  obtain ⟨fs, r, rfl, hfs, hr⟩ := exists_digits_append rest
  have hfs0 : 0 < fs.length := by
    cases fs with
    | cons => simp
    | nil =>
      cases r with
      | nil => cases h
      | cons d ds =>
        have hd : d.isDigit = true := by simpa [startsWithDigit] using h
        simp [digitRun, hd] at hr
  have hlen := @numberLength_point [] fs r (by simp) hfs hr (by simpa using hfs0)
  rw [List.nil_append] at hlen
  omega

/-- A number lexeme takes its first character at least. -/
theorem numberLength_pos {c : Char} {rest : List Char}
    (h : (c.isDigit || (c = '.' && startsWithDigit rest)) = true) :
    0 < numberLength (c :: rest) := by
  by_cases hc : c.isDigit = true
  · rcases numberLength_cases (c :: rest) with
      ⟨ws, fs, r, -, -, -, -, -, hlen⟩ | ⟨r, hcs, -, -⟩ | ⟨ws, r, hcs, -, hr, -, hlen⟩
    · omega
    · rw [(List.cons.inj hcs).1] at hc
      cases hc
    · cases ws with
      | cons => simp only [hlen, List.length_cons]; omega
      | nil =>
        rw [List.nil_append] at hcs
        subst hcs
        simp [digitRun, hc] at hr
  · obtain ⟨rfl, hs⟩ : c = '.' ∧ startsWithDigit rest = true := by simpa [hc] using h
    have := two_le_numberLength_point hs
    omega

theorem unrecognisedLength_le_length (cs : List Char) : unrecognisedLength cs ≤ cs.length := by
  induction cs with
  | nil => simp [unrecognisedLength]
  | cons c rest ih =>
    simp only [unrecognisedLength, List.length_cons]
    split <;> omega

theorem Closes.unrecognisedLength_eq_zero {tail : List Char} (ht : Closes tail) :
    unrecognisedLength tail = 0 := by
  cases tail with
  | nil => rfl
  | cons c rest =>
    have hb : Text.isBlank ' ' = true := by decide
    rcases ht with rfl | rfl
    · simp [unrecognisedLength, hb]
    · simp [unrecognisedLength, startsLexeme]

/-- A closed cut of a text starts with a digit only where the text does. -/
theorem startsWithDigit_take_append {xs tail : List Char} (k : Nat) (ht : Closes tail)
    (h : startsWithDigit (xs.take k ++ tail) = true) : startsWithDigit xs = true := by
  cases xs with
  | nil => simp [ht.startsWithDigit_eq_false] at h
  | cons d ds =>
    cases k with
    | zero => simp [ht.startsWithDigit_eq_false] at h
    | succ k => simpa [startsWithDigit] using h

/-- Whether a lexeme opens at a character depends on the text after it only through whether
that text starts with a digit. -/
theorem startsLexeme_cons_of_startsWithDigit {d : Char} {xs ys : List Char}
    (h : startsWithDigit xs = true → startsWithDigit ys = true)
    (hs : startsLexeme (d :: xs) = true) : startsLexeme (d :: ys) = true := by
  simp only [startsLexeme, Bool.or_eq_true, Bool.and_eq_true, decide_eq_true_eq] at hs ⊢
  rcases hs with hs | ⟨hd, hx⟩
  · exact .inl hs
  · exact .inr ⟨hd, h hx⟩

/-- An unrecognised run read again before a closing space is read whole: at each of its
characters the same lexemes open or not, and the space ends it where the text went on with a
blank, with the start of a lexeme or with nothing. -/
theorem unrecognisedLength_take_append (rest : List Char) {tail : List Char} (ht : Closes tail) :
    unrecognisedLength (rest.take (unrecognisedLength rest) ++ tail) = unrecognisedLength rest := by
  induction rest with
  | nil => exact ht.unrecognisedLength_eq_zero
  | cons d ds ih =>
    cases hs : (Text.isBlank d || startsLexeme (d :: ds)) with
    | true =>
      have h0 : unrecognisedLength (d :: ds) = 0 := by simp [unrecognisedLength, hs]
      rw [h0, List.take_zero, List.nil_append]
      exact ht.unrecognisedLength_eq_zero
    | false =>
      have hlen : unrecognisedLength (d :: ds) = unrecognisedLength ds + 1 := by
        simp only [unrecognisedLength, hs, Bool.false_eq_true, if_false]
        omega
      -- the run goes on at `d` in the cut text too: only a point before a digit could differ
      have hs' : (Text.isBlank d || startsLexeme (d :: (ds.take (unrecognisedLength ds) ++ tail))) =
          false := by
        rw [Bool.or_eq_false_iff] at hs ⊢
        refine ⟨hs.1, Bool.eq_false_iff.mpr fun h => ?_⟩
        have h' := startsLexeme_cons_of_startsWithDigit (startsWithDigit_take_append _ ht) h
        rw [hs.2] at h'
        cases h'
      rw [hlen, List.take_succ_cons, List.cons_append]
      simp only [unrecognisedLength, hs', Bool.false_eq_true, if_false, ih]
      omega

/-- A lexeme takes no more characters than there are. -/
theorem classify_snd_le_length (c : Char) (rest : List Char) :
    (classify c rest).2 ≤ rest.length := by
  unfold classify
  split
  · simp
  · split_ifs
    · simp
    · simp
    · exact (List.takeWhile_sublist _).length_le
    · have := numberLength_le_length (c :: rest)
      rw [List.length_cons] at this
      dsimp only
      split <;> omega
    · exact unrecognisedLength_le_length rest

/-- The lexer decides on the lexeme's own characters alone: cut the text right after a lexeme
and close it, and the same lexeme is read. -/
theorem classify_take_append {c : Char} (rest : List Char) {tail : List Char} (ht : Closes tail) :
    classify c (rest.take (classify c rest).2 ++ tail) = classify c rest := by
  cases hop : Operator.ofChar? c with
  | some o => simp [classify, hop]
  | none =>
  by_cases h1 : c = '('
  · simp [classify, h1]
  by_cases h2 : c = ')'
  · simp [classify, h2]
  by_cases ha : c.isAlpha = true
  · -- a name: its letters and digits, then the closing space
    rw [classify_of_isAlpha rest ha, classify_of_isAlpha _ ha, take_length_takeWhile,
      List.takeWhile_append_of_pos (fun _ h => List.mem_takeWhile_imp h),
      ht.takeWhile_isAsciiAlnum, List.append_nil]
  by_cases hn : (c.isDigit || (c = '.' && startsWithDigit rest)) = true
  · -- a number: the same characters are scanned and given to the reader
    have hpos := numberLength_pos hn
    have hle := numberLength_le_length (c :: rest)
    rw [List.length_cons] at hle
    obtain ⟨n, hn1⟩ : ∃ n, numberLength (c :: rest) = n + 1 :=
      ⟨_, (Nat.succ_pred_eq_of_pos hpos).symm⟩
    have hR : (classify c rest).2 = n := by
      simp only [classify, hop, h1, h2, ha, hn, hn1, if_false, if_true, Bool.false_eq_true,
        Nat.add_sub_cancel]
      split <;> rfl
    have hcs : c :: (rest.take n ++ tail) =
        (c :: rest).take (numberLength (c :: rest)) ++ tail := by
      rw [hn1, List.take_succ_cons, List.cons_append]
    have hlen : numberLength (c :: (rest.take n ++ tail)) = n + 1 := by
      rw [hcs, numberLength_take_append _ ht, hn1]
    have htake : (rest.take n ++ tail).take n = rest.take n :=
      List.take_left' (by simp; omega)
    have hn' : (c.isDigit || (c = '.' && startsWithDigit (rest.take n ++ tail))) = true := by
      by_cases hc : c.isDigit = true
      · simp [hc]
      obtain ⟨rfl, hs⟩ : c = '.' ∧ startsWithDigit rest = true := by simpa [hc] using hn
      have h2n := two_le_numberLength_point hs
      obtain ⟨m, rfl⟩ : ∃ m, n = m + 1 := ⟨n - 1, by omega⟩
      cases rest with
      | nil => cases hs
      | cons d ds => simpa [startsWithDigit] using hs
    rw [hR]
    simp [classify, hop, h1, h2, ha, hn, hn', hn1, hlen, htake]
  · -- an unrecognised run: it starts alike, and ends at the closing space where it ended before
    have hR : classify c rest = (.unrecognised, unrecognisedLength rest) := by
      simp [classify, hop, h1, h2, ha, hn]
    have hn' : (c.isDigit || (c = '.' &&
        startsWithDigit (rest.take (unrecognisedLength rest) ++ tail))) = false := by
      rw [Bool.eq_false_iff]
      intro h
      apply hn
      simp only [Bool.or_eq_true, Bool.and_eq_true, decide_eq_true_eq] at h ⊢
      rcases h with h | ⟨hc, hs⟩
      · exact .inl h
      · exact .inr ⟨hc, startsWithDigit_take_append _ ht hs⟩
    rw [hR]
    simp [classify, hop, h1, h2, ha, hn', unrecognisedLength_take_append rest ht]

/-- Cutting the text right after a lexeme and closing it lexes that lexeme first and goes on
with the closing text. -/
theorem lexFrom_cut (offset : Nat) {c : Char} (rest : List Char) {tail : List Char}
    (hb : Text.isBlank c = false) (ht : Closes tail) :
    lexFrom offset (c :: rest.take (classify c rest).2 ++ tail) =
      ⟨(classify c rest).1, String.ofList (c :: rest.take (classify c rest).2), offset⟩ ::
        lexFrom (offset + byteLength (c :: rest.take (classify c rest).2)) tail := by
  have hle := classify_snd_le_length c rest
  have htake : (rest.take (classify c rest).2 ++ tail).take (classify c rest).2 =
      rest.take (classify c rest).2 := List.take_left' (by simp; omega)
  have hdrop : (rest.take (classify c rest).2 ++ tail).drop (classify c rest).2 = tail :=
    List.drop_left' (by simp; omega)
  rw [List.cons_append, lexFrom_lexeme _ hb, classify_take_append rest ht, htake, hdrop]

/-- Only an operator character is cut as an operator, alone. -/
theorem classify_operator {c : Char} {rest : List Char} {o : Operator}
    (h : (classify c rest).1 = .operator o) :
    Operator.ofChar? c = some o ∧ (classify c rest).2 = 0 := by
  unfold classify at h ⊢
  split at h
  · simp_all
  · split_ifs at h
    dsimp only at h
    split at h <;> simp at h

/-- Only an opening parenthesis is cut as one, alone. -/
theorem classify_openParen {c : Char} {rest : List Char}
    (h : (classify c rest).1 = .openParen) : c = '(' ∧ (classify c rest).2 = 0 := by
  unfold classify at h ⊢
  split at h
  · simp at h
  · split_ifs at h with h1
    · simp [h1]
    · dsimp only at h
      split at h <;> simp at h

/-- Only a closing parenthesis is cut as one, alone. -/
theorem classify_closeParen {c : Char} {rest : List Char}
    (h : (classify c rest).1 = .closeParen) : c = ')' ∧ (classify c rest).2 = 0 := by
  unfold classify at h ⊢
  split at h
  · simp at h
  · split_ifs at h with h1 h2
    · simp [h2]
    · dsimp only at h
      split at h <;> simp at h

/-- A number lexeme's value is the double of a decimal. -/
theorem classify_number {c : Char} {rest : List Char} {v : Float}
    (h : (classify c rest).1 = .number v) : ∃ d : Decimal, v = d.toFloat := by
  unfold classify at h
  split at h
  · simp at h
  · split_ifs at h
    dsimp only at h
    split at h
    · exact ⟨_, (LexemeKind.number.inj h).symm⟩
    · simp at h

end Formulas.Lexer
