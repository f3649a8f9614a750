import Formulas.Proofs.Lexing
/-!
# Maximal munch

How a text is cut into lexemes, stated without the lexer's own functions. Blanks are skipped. At
any other character the lexeme that opens there is as long as it can be: a parenthesis or an
operator is one character, a letter opens the longest name `[A-Za-z][A-Za-z0-9]*`, and a digit,
or a point before a digit, opens the longest number `(\d+\.\d*|\d*\.\d+|\d+)([eE][+-]?\d+)?`,
valued by the number reader. Any other character opens an unrecognised run: that character and
the longest stretch after it with no blank and no position where a lexeme of another class opens.

The number scanner takes digits, a point and an exponent greedily, and gives an exponent back
when no digit follows its `e` and sign; `isLongestPrefix_number` shows that this is still the
longest match, and `readBody?_isSome` that the reader accepts every number text, so a number is
never cut as an unrecognised run.

Main statement: `lex_eq_iff_tokenizes`, the lexemes of a text are its maximal-munch
tokenization, which is unique.
-/

namespace Formulas.Lexer

open Text

/-! ## Longest prefixes -/

/-- `w` is the longest prefix of `cs` in the language `L`. -/
def IsLongestPrefix (L : List Char → Prop) (cs w : List Char) : Prop :=
  w <+: cs ∧ L w ∧ ∀ u, u <+: cs → L u → u.length ≤ w.length

/-- A text has one longest prefix in a language, if any. -/
theorem IsLongestPrefix.unique {L : List Char → Prop} {cs w w' : List Char}
    (h : IsLongestPrefix L cs w) (h' : IsLongestPrefix L cs w') : w = w' := by
  obtain ⟨hw, hL, hmax⟩ := h
  obtain ⟨hw', hL', hmax'⟩ := h'
  have hle : w'.length ≤ w.length := hmax w' hw' hL'
  have hge : w.length ≤ w'.length := hmax' w hw hL
  exact (List.prefix_of_prefix_length_le hw hw' hge).eq_of_length (by omega)

/-- A prefix all of whose characters pass `p` is no longer than the run `takeWhile p`. -/
theorem length_le_takeWhile {p : Char → Bool} {u cs : List Char} (hu : u <+: cs)
    (hp : ∀ c ∈ u, p c = true) : u.length ≤ (cs.takeWhile p).length := by
  obtain ⟨t, rfl⟩ := hu
  rw [List.takeWhile_append_of_pos hp, List.length_append]
  omega

/-! ## The languages of the lexeme classes -/

/-- Every character is an ASCII digit. -/
def Digits (ds : List Char) : Prop := ∀ c ∈ ds, c.isDigit = true

/-- The names `[A-Za-z][A-Za-z0-9]*`. -/
def NameText : List Char → Prop
  | c :: rest => c.isAlpha = true ∧ ∀ d ∈ rest, isAsciiAlnum d = true
  | [] => False

/-- The mantissas `\d+\.\d* | \d*\.\d+ | \d+`. -/
inductive Mantissa : List Char → Prop
  /-- Digits, a point and digits, with a digit on one side at least. -/
  | point {ws fs : List Char} : Digits ws → Digits fs → ws ≠ [] ∨ fs ≠ [] →
      Mantissa (ws ++ '.' :: fs)
  /-- Digits and no point. -/
  | whole {ws : List Char} : Digits ws → ws ≠ [] → Mantissa ws

/-- The optional exponents `([eE][+-]?\d+)?`. -/
inductive Exponent : List Char → Prop
  | none : Exponent []
  | unsigned {e : Char} {ds : List Char} : (e = 'e' ∨ e = 'E') → Digits ds → ds ≠ [] →
      Exponent (e :: ds)
  | signed {e s : Char} {ds : List Char} : (e = 'e' ∨ e = 'E') → (s = '+' ∨ s = '-') →
      Digits ds → ds ≠ [] → Exponent (e :: s :: ds)

/-- The numbers `(\d+\.\d*|\d*\.\d+|\d+)([eE][+-]?\d+)?`. -/
def NumberText (w : List Char) : Prop := ∃ m x, w = m ++ x ∧ Mantissa m ∧ Exponent x

/-! ## Where each class of lexeme opens -/

/-- The class of a character that is a lexeme by itself: a parenthesis or an operator. -/
def singleKind? (c : Char) : Option LexemeKind :=
  if c = '(' then some .openParen
  else if c = ')' then some .closeParen
  else (Operator.ofChar? c).map .operator

/-- A number opens at a digit, or at a point before a digit. -/
def OpensNumber : List Char → Prop
  | c :: rest => c.isDigit = true ∨ (c = '.' ∧ startsWithDigit rest = true)
  | [] => False

/-- A lexeme other than an unrecognised run opens at the start of the text. -/
def Opens : List Char → Prop
  | c :: rest => (singleKind? c).isSome ∨ c.isAlpha = true ∨ OpensNumber (c :: rest)
  | [] => False

/-- An unrecognised run goes on at the start of the text: there is a character, no blank, and no
lexeme of another class opens there. -/
def Continues : List Char → Prop
  | c :: rest => isBlank c = false ∧ ¬Opens (c :: rest)
  | [] => False

/-- `r` is a stretch at the start of `rest` each position of which continues an unrecognised
run. -/
def QuietRun (rest r : List Char) : Prop := ∀ i < r.length, Continues (rest.drop i)

/-- `Munch cs k w`: the lexeme at the start of `cs` has class `k` and text `w`. -/
inductive Munch : List Char → LexemeKind → List Char → Prop
  /-- A parenthesis or an operator is a lexeme by itself. -/
  | single {c : Char} {rest : List Char} {k : LexemeKind} :
      singleKind? c = some k → Munch (c :: rest) k [c]
  /-- A letter opens the longest name. -/
  | name {c : Char} {rest w : List Char} :
      c.isAlpha = true → IsLongestPrefix NameText (c :: rest) w → Munch (c :: rest) .name w
  /-- A number opens the longest number text, valued by the number reader. -/
  | number {cs w : List Char} {v : Float} : OpensNumber cs → IsLongestPrefix NumberText cs w →
      Decimal.readFloat? (String.ofList w) = some v → Munch cs (.number v) w
  /-- Any other character that is no blank opens an unrecognised run: it and the longest stretch
  after it that continues the run. -/
  | unrecognised {c : Char} {rest r : List Char} : Continues (c :: rest) →
      IsLongestPrefix (QuietRun rest) rest r → Munch (c :: rest) .unrecognised (c :: r)

/-- `Tokenizes offset cs ls`: `ls` is the maximal-munch tokenization of `cs`, a text whose first
character sits at byte `offset`. -/
inductive Tokenizes : Nat → List Char → List Lexeme → Prop
  | nil (offset : Nat) : Tokenizes offset [] []
  | blank {offset : Nat} {c : Char} {rest : List Char} {ls : List Lexeme} :
      isBlank c = true → Tokenizes (offset + c.utf8Size) rest ls → Tokenizes offset (c :: rest) ls
  | lexeme {offset : Nat} {cs w : List Char} {k : LexemeKind} {ls : List Lexeme} :
      Munch cs k w → Tokenizes (offset + byteLength w) (cs.drop w.length) ls →
      Tokenizes offset cs (⟨k, String.ofList w, offset⟩ :: ls)

/-! ## Names -/

/-- After a letter, the scanner takes the longest name. -/
theorem isLongestPrefix_name {c : Char} (rest : List Char) (h : c.isAlpha = true) :
    IsLongestPrefix NameText (c :: rest) (c :: rest.takeWhile isAsciiAlnum) := by
  refine ⟨(List.prefix_cons_inj c).mpr (List.takeWhile_prefix _),
    ⟨h, fun d hd => List.mem_takeWhile_imp hd⟩, ?_⟩
  intro u hu hname
  cases u with
  | nil => simp
  | cons d ds =>
    obtain ⟨-, hds⟩ := hname
    have hpre : ds <+: rest := (List.cons_prefix_cons.mp hu).2
    have hlen := length_le_takeWhile hpre hds
    simp only [List.length_cons]
    omega

/-! ## Exponents -/

theorem digits_take_digitRun (cs : List Char) : Digits (cs.take (digitRun cs)) := by
  intro c hc
  rw [take_digitRun] at hc
  exact List.mem_takeWhile_imp hc

theorem length_take_digitRun (cs : List Char) : (cs.take (digitRun cs)).length = digitRun cs := by
  rw [List.length_take, Nat.min_eq_left (digitRun_le_length cs)]

/-- The digits of a run are read by `digitRun` before whatever follows. -/
theorem Digits.length_le_digitRun {ds : List Char} (h : Digits ds) (t : List Char) :
    ds.length ≤ digitRun (ds ++ t) := by
  rw [digitRun_append_of_digits t h]
  omega

theorem Digits.append {ws fs : List Char} (hw : Digits ws) (hf : Digits fs) :
    Digits (ws ++ fs) :=
  List.forall_mem_append.mpr ⟨hw, hf⟩

/-- A point with a digit on one side at least has a digit around it. -/
theorem length_add_length_pos {ws fs : List Char} (h : ws ≠ [] ∨ fs ≠ []) :
    0 < ws.length + fs.length := by
  rcases h with h | h
  · have := List.length_pos_iff.mpr h
    omega
  · have := List.length_pos_iff.mpr h
    omega

namespace Exponent

variable {x : List Char}

/-- An exponent starts with `e` or `E`. -/
theorem exists_cons (h : Exponent x) (hx : x ≠ []) :
    ∃ e rest, x = e :: rest ∧ (e = 'e' ∨ e = 'E') := by
  cases h with
  | none => exact absurd rfl hx
  | unsigned he => exact ⟨_, _, rfl, he⟩
  | signed he => exact ⟨_, _, rfl, he⟩

/-- No digit run goes on into an exponent. -/
theorem digitRun_append (h : Exponent x) (hx : x ≠ []) (t : List Char) :
    digitRun (x ++ t) = 0 := by
  obtain ⟨e, rest, rfl, he⟩ := h.exists_cons hx
  rcases he with rfl | rfl <;> rfl

/-- An exponent does not start with a point. -/
theorem head?_append_ne_point (h : Exponent x) (hx : x ≠ []) (t : List Char) :
    (x ++ t).head? ≠ some '.' := by
  obtain ⟨e, rest, rfl, he⟩ := h.exists_cons hx
  rcases he with rfl | rfl <;> simp

theorem digitRun_eq_zero (h : Exponent x) : digitRun x = 0 := by
  by_cases hx : x = []
  · subst hx
    rfl
  · simpa using h.digitRun_append hx []

theorem head?_ne_point (h : Exponent x) : x.head? ≠ some '.' := by
  by_cases hx : x = []
  · simp [hx]
  · simpa using h.head?_append_ne_point hx []

/-- The scanner takes an exponent whole, whatever follows it. -/
theorem length_le_exponentLength (h : Exponent x) (t : List Char) :
    x.length ≤ exponentLength (x ++ t) := by
  cases h with
  | none => simp
  | @unsigned e ds he hds hne =>
    obtain ⟨d, dt, rfl⟩ := List.exists_cons_of_ne_nil hne
    have hd : d.isDigit = true := hds d List.mem_cons_self
    have hs : ¬(d = '+' ∨ d = '-') := by
      rintro (rfl | rfl) <;> exact absurd hd (by decide)
    have hrun := hds.length_le_digitRun t
    simp only [List.length_cons, List.cons_append] at hrun
    have hpos : digitRun (d :: (dt ++ t)) ≠ 0 := by omega
    simp only [List.cons_append]
    simp only [exponentLength, he, if_true, hs, if_false, hpos, List.length_cons]
    omega
  | @signed e s ds he hs hds hne =>
    have hrun := hds.length_le_digitRun t
    have hpos : digitRun (ds ++ t) ≠ 0 := by
      have := List.length_pos_iff.mpr hne
      omega
    simp only [List.cons_append, exponentLength, he, if_true, hs, hpos, if_false,
      List.length_cons]
    omega

/-- Where the scanner takes no exponent, what it takes is the empty exponent. -/
theorem take_exponentLength_of_eq_zero {xs : List Char} (h : exponentLength xs = 0) :
    Exponent (xs.take (exponentLength xs)) := by
  rw [h]
  exact .none

/-- What the scanner takes as an exponent is one. -/
theorem take_exponentLength (xs : List Char) : Exponent (xs.take (exponentLength xs)) := by
  match xs with
  | [] => exact .none
  | [c] => exact take_exponentLength_of_eq_zero (by simp [exponentLength])
  | c :: s :: ds =>
    by_cases hc : c = 'e' ∨ c = 'E'
    · by_cases hs : s = '+' ∨ s = '-'
      · by_cases hd : digitRun ds = 0
        · exact take_exponentLength_of_eq_zero (by simp [exponentLength, hc, hs, hd])
        · have hlen : exponentLength (c :: s :: ds) = digitRun ds + 2 := by
            simp only [exponentLength, hc, hs, hd, if_true, if_false]
            omega
          rw [hlen, List.take_succ_cons, List.take_succ_cons]
          refine .signed hc hs (digits_take_digitRun ds) ?_
          rw [← List.length_pos_iff, length_take_digitRun]
          omega
      · by_cases hd : digitRun (s :: ds) = 0
        · exact take_exponentLength_of_eq_zero (by simp [exponentLength, hc, hs, hd])
        · have hlen : exponentLength (c :: s :: ds) = digitRun (s :: ds) + 1 := by
            simp only [exponentLength, hc, hs, hd, if_true, if_false]
            omega
          rw [hlen, List.take_succ_cons]
          refine .unsigned hc (digits_take_digitRun (s :: ds)) ?_
          rw [← List.length_pos_iff, length_take_digitRun]
          omega
    · exact take_exponentLength_of_eq_zero (by simp [exponentLength, hc])

end Exponent

/-! ## Numbers -/

/-- The scanner's mantissa takes the leading digits at least. -/
theorem digitRun_le_numberLength (cs : List Char) : digitRun cs ≤ numberLength cs := by
  rcases numberLength_cases cs with
    ⟨ws, fs, r, rfl, hws, -, -, -, hlen⟩ | ⟨r, rfl, -, hlen⟩ | ⟨ws, r, rfl, hws, hr, -, hlen⟩
  · rw [hlen, digitRun_append_of_digits _ hws, digitRun_cons_of_isDigit_false _ rfl]
    omega
  · rw [hlen, digitRun_cons_of_isDigit_false _ rfl]
  · rw [hlen, digitRun_append_of_digits _ hws, hr]
    omega

/-- The scanner takes every number that starts the text, and maybe more. -/
theorem length_le_numberLength {u cs : List Char} (hu : u <+: cs) (hn : NumberText u) :
    u.length ≤ numberLength cs := by
  obtain ⟨t, rfl⟩ := hu
  obtain ⟨m, x, rfl, hm, hx⟩ := hn
  by_cases hx0 : x = []
  · -- no exponent: the mantissa's digits, and its point, are taken
    subst hx0
    cases hm with
    | @point ws fs hws hfs hne =>
      obtain ⟨gs, r, rfl, hgs, hr⟩ := exists_digits_append t
      have hsome : 0 < ws.length + (fs ++ gs).length := by
        have := length_add_length_pos hne
        simp only [List.length_append]
        omega
      have hcs : ws ++ '.' :: fs ++ [] ++ (gs ++ r) = ws ++ '.' :: (fs ++ gs ++ r) := by simp
      have hlen := numberLength_point hws (hfs.append hgs) hr hsome
      rw [hcs, hlen]
      simp only [List.append_nil, List.length_append, List.length_cons]
      omega
    | whole hws _ =>
      have hlen := hws.length_le_digitRun t
      have := digitRun_le_numberLength (m ++ t)
      simp only [List.append_nil]
      omega
  · -- an exponent: the whole mantissa is taken, and the exponent after it
    have hrun := hx.digitRun_append hx0 t
    have hexp := hx.length_le_exponentLength t
    cases hm with
    | @point ws fs hws hfs hne =>
      have hsome := length_add_length_pos hne
      have hcs : ws ++ '.' :: fs ++ x ++ t = ws ++ '.' :: (fs ++ (x ++ t)) := by simp
      rw [hcs, numberLength_point hws hfs hrun hsome]
      simp only [List.length_append, List.length_cons]
      omega
    | whole hws _ =>
      rw [List.append_assoc, numberLength_whole hws hrun (hx.head?_append_ne_point hx0 t)]
      simp only [List.length_append]
      omega

/-- What the scanner takes at the start of a number is a number text. -/
theorem numberText_take_numberLength {cs : List Char} (h : OpensNumber cs) :
    NumberText (cs.take (numberLength cs)) := by
  rcases numberLength_cases cs with
    ⟨ws, fs, r, rfl, hws, hfs, hr, hnum, hlen⟩ | ⟨r, rfl, hr, -⟩ |
      ⟨ws, r, rfl, hws, hr, hpoint, hlen⟩
  · have htake : (ws ++ '.' :: (fs ++ r)).take (numberLength (ws ++ '.' :: (fs ++ r))) =
        (ws ++ '.' :: fs) ++ r.take (exponentLength r) := by
      rw [hlen, show ws.length + 1 + fs.length + exponentLength r
          = ws.length + (fs.length + exponentLength r + 1) by omega,
        List.take_append, List.take_of_length_le (by omega), Nat.add_sub_cancel_left,
        List.take_succ_cons, List.take_append, List.take_of_length_le (by omega),
        Nat.add_sub_cancel_left]
      simp
    have hne : ws ≠ [] ∨ fs ≠ [] := by
      by_cases hw : ws = []
      · subst hw
        exact .inr (List.length_pos_iff.mp (by simpa using hnum))
      · exact .inl hw
    rw [htake]
    exact ⟨_, _, rfl, .point hws hfs hne, Exponent.take_exponentLength r⟩
  · -- a point with no digit on either side opens no number
    exfalso
    rcases h with h | ⟨-, h⟩
    · exact absurd h (by decide)
    · cases r with
      | nil => cases h
      | cons d ds => exact absurd (digitRun_cons_eq_zero.mp hr) (by simpa [startsWithDigit] using h)
  · have htake : (ws ++ r).take (numberLength (ws ++ r)) = ws ++ r.take (exponentLength r) := by
      rw [hlen, List.take_append, List.take_of_length_le (by omega), Nat.add_sub_cancel_left]
    have hne : ws ≠ [] := by
      rintro rfl
      cases r with
      | nil => exact h.elim
      | cons d ds =>
        rcases h with h | ⟨rfl, -⟩
        · exact absurd h (by simpa using digitRun_cons_eq_zero.mp hr)
        · exact hpoint rfl
    rw [htake]
    exact ⟨_, _, rfl, .whole hws hne, Exponent.take_exponentLength r⟩

/-- At the start of a number the scanner takes the longest number text. -/
theorem isLongestPrefix_number {cs : List Char} (h : OpensNumber cs) :
    IsLongestPrefix NumberText cs (cs.take (numberLength cs)) := by
  refine ⟨List.take_prefix _ _, numberText_take_numberLength h, fun u hu hn => ?_⟩
  rw [List.length_take, Nat.min_eq_left (numberLength_le_length cs)]
  exact length_le_numberLength hu hn

/-! ## The number reader -/

theorem takeWhile_isDigit_of_digitRun_eq_zero {x : List Char} (h : digitRun x = 0) :
    x.takeWhile Char.isDigit = [] :=
  List.eq_nil_of_length_eq_zero h

theorem dropWhile_isDigit_of_digitRun_eq_zero {x : List Char} (h : digitRun x = 0) :
    x.dropWhile Char.isDigit = x := by
  cases x with
  | nil => rfl
  | cons d ds => simp [digitRun_cons_eq_zero.mp h]

/-- The reader on digits, a point, digits, and text that starts with no digit. -/
theorem readBody?_point {ws fs x : List Char} (hws : Digits ws) (hfs : Digits fs)
    (hne : ws ≠ [] ∨ fs ≠ []) (hx : digitRun x = 0) :
    Decimal.readBody? (ws ++ '.' :: (fs ++ x)) =
      (Decimal.readExponent? x).map fun e => ⟨Decimal.digitsValue (ws ++ fs), e - fs.length⟩ := by
  have hw : (ws ++ '.' :: (fs ++ x)).takeWhile Char.isDigit = ws := by
    rw [List.takeWhile_append_of_pos hws]
    simp
  have hd : (ws ++ '.' :: (fs ++ x)).dropWhile Char.isDigit = '.' :: (fs ++ x) := by
    rw [List.dropWhile_append_of_pos hws]
    simp
  have hf : (fs ++ x).takeWhile Char.isDigit = fs := by
    rw [List.takeWhile_append_of_pos hfs, takeWhile_isDigit_of_digitRun_eq_zero hx,
      List.append_nil]
  have hr : (fs ++ x).dropWhile Char.isDigit = x := by
    rw [List.dropWhile_append_of_pos hfs, dropWhile_isDigit_of_digitRun_eq_zero hx]
  have hempty : (ws.isEmpty && fs.isEmpty) = false := by
    rcases hne with h | h <;> simp [h]
  simp only [Decimal.readBody?, hw, hd, hf, hr, hempty, Bool.false_eq_true, if_false]

/-- The reader on digits, and text that starts with neither a digit nor a point. -/
theorem readBody?_whole {ws x : List Char} (hws : Digits ws) (hne : ws ≠ [])
    (hx : digitRun x = 0) (hpoint : x.head? ≠ some '.') :
    Decimal.readBody? (ws ++ x) =
      (Decimal.readExponent? x).map fun e => ⟨Decimal.digitsValue ws, e⟩ := by
  have hw : (ws ++ x).takeWhile Char.isDigit = ws := by
    rw [List.takeWhile_append_of_pos hws, takeWhile_isDigit_of_digitRun_eq_zero hx,
      List.append_nil]
  have hd : (ws ++ x).dropWhile Char.isDigit = x := by
    rw [List.dropWhile_append_of_pos hws, dropWhile_isDigit_of_digitRun_eq_zero hx]
  simp only [Decimal.readBody?, hw, hd]
  split
  · exact absurd rfl hpoint
  · simp [hne]

/-- The reader accepts every exponent. -/
theorem Exponent.readExponent?_isSome {x : List Char} (h : Exponent x) :
    (Decimal.readExponent? x).isSome := by
  cases h with
  | none => rfl
  | @unsigned e ds he hds hne =>
    obtain ⟨d, dt, rfl⟩ := List.exists_cons_of_ne_nil hne
    have hd : d.isDigit = true := hds d List.mem_cons_self
    have hall : (d :: dt).all Char.isDigit = true := List.all_eq_true.mpr hds
    simp only [Decimal.readExponent?, he, if_true]
    -- a digit is no sign, so the digits are read unsigned
    split
    next heq =>
      obtain ⟨rfl, -⟩ := List.cons.inj heq
      exact absurd hd (by decide)
    next heq =>
      obtain ⟨rfl, -⟩ := List.cons.inj heq
      exact absurd hd (by decide)
    next => simp [hall]
  | @signed e s ds he hs hds hne =>
    have hall : ds.all Char.isDigit = true := List.all_eq_true.mpr hds
    rcases hs with rfl | rfl <;> simp [Decimal.readExponent?, he, hall, hne]

/-- The reader accepts every number text. -/
theorem readBody?_isSome {w : List Char} (h : NumberText w) : (Decimal.readBody? w).isSome := by
  obtain ⟨m, x, rfl, hm, hx⟩ := h
  cases hm with
  | point hws hfs hne =>
    rw [List.append_assoc, List.cons_append, readBody?_point hws hfs hne hx.digitRun_eq_zero,
      Option.isSome_map]
    exact hx.readExponent?_isSome
  | whole hws hne =>
    rw [readBody?_whole hws hne hx.digitRun_eq_zero hx.head?_ne_point, Option.isSome_map]
    exact hx.readExponent?_isSome

/-! ## Character classes -/

/-- A printable ASCII character is no blank. -/
theorem isBlank_eq_false_of_toNat {c : Char} (h1 : 33 ≤ c.toNat) (h2 : c.toNat ≤ 126) :
    isBlank c = false := by
  simp only [isBlank, blankRanges, List.any_cons, List.any_nil, Bool.or_false,
    Bool.or_eq_false_iff, Bool.and_eq_false_iff, decide_eq_false_iff_not, Nat.not_le]
  omega

theorem toNat_of_isDigit {c : Char} (h : c.isDigit = true) : 48 ≤ c.toNat ∧ c.toNat ≤ 57 :=
  Char.isDigit_iff_toNat.mp h

/-- The characters that are lexemes by themselves. -/
theorem singleKind?_isSome_iff {c : Char} :
    (singleKind? c).isSome = true ↔ c = '(' ∨ c = ')' ∨ (Operator.ofChar? c).isSome = true := by
  unfold singleKind?
  split_ifs with h1 h2
  · simp [h1]
  · simp [h2]
  · simp [h1, h2]

theorem singleKind?_eq_none_iff {c : Char} :
    singleKind? c = none ↔ c ≠ '(' ∧ c ≠ ')' ∧ Operator.ofChar? c = none := by
  rw [← Option.not_isSome_iff_eq_none, singleKind?_isSome_iff, ← Option.not_isSome_iff_eq_none]
  simp only [not_or, ne_eq]

/-- A parenthesis or an operator is no blank. -/
theorem isBlank_of_singleKind? {c : Char} {k : LexemeKind} (h : singleKind? c = some k) :
    isBlank c = false := by
  unfold singleKind? at h
  split_ifs at h with h1 h2
  · rw [h1]
    decide
  · rw [h2]
    decide
  · obtain ⟨o, ho, -⟩ := Option.map_eq_some_iff.mp h
    rw [← Operator.char_of_ofChar? ho]
    cases o <;> decide

namespace OpensNumber

variable {c : Char} {rest : List Char}

/-- A number opens at a digit or at a point. -/
theorem head (h : OpensNumber (c :: rest)) : c.isDigit = true ∨ c = '.' := by
  rcases h with h | ⟨h, -⟩
  · exact .inl h
  · exact .inr h

theorem isBlank_eq_false (h : OpensNumber (c :: rest)) : isBlank c = false := by
  rcases h.head with hd | rfl
  · have := toNat_of_isDigit hd
    exact isBlank_eq_false_of_toNat (by omega) (by omega)
  · decide

theorem singleKind?_eq_none (h : OpensNumber (c :: rest)) : singleKind? c = none := by
  rcases h.head with hd | rfl
  · refine singleKind?_eq_none_iff.mpr ⟨?_, ?_, ?_⟩
    · rintro rfl
      exact absurd hd (by decide)
    · rintro rfl
      exact absurd hd (by decide)
    · cases ho : Operator.ofChar? c with
      | none => rfl
      | some o =>
        rw [← Operator.char_of_ofChar? ho] at hd
        cases o <;> exact absurd hd (by decide)
  · rfl

theorem isAlpha_eq_false (h : OpensNumber (c :: rest)) : c.isAlpha = false := by
  rcases h.head with hd | rfl
  · cases ha : c.isAlpha with
    | false => rfl
    | true =>
      have := isBlank_of_isAlpha ha
      have hc : c.isAlpha = (decide (c.val ≥ 'A'.val ∧ c.val ≤ 'Z'.val) ||
          (decide (c.val ≥ 'a'.val) && decide (c.val ≤ 'z'.val))) := rfl
      have hA : ('A' : Char).val.toNat = 65 := rfl
      have ha' : ('a' : Char).val.toNat = 97 := rfl
      have hn : c.toNat = c.val.toNat := rfl
      have hd' := toNat_of_isDigit hd
      rw [hc] at ha
      simp only [Bool.or_eq_true, Bool.and_eq_true, decide_eq_true_eq, ge_iff_le,
        UInt32.le_iff_toNat_le] at ha
      omega
  · rfl

/-- The scanner's test for the start of a number. -/
theorem startsNumber (h : OpensNumber (c :: rest)) :
    (c.isDigit || (c = '.' && startsWithDigit rest)) = true := by
  rcases h with h | ⟨rfl, h⟩ <;> simp [h]

end OpensNumber

/-! ## Unrecognised runs -/

/-- The lexer's test for the start of a lexeme of another class is `Opens`. -/
theorem startsLexeme_iff (cs : List Char) : startsLexeme cs = true ↔ Opens cs := by
  cases cs with
  | nil => simp [startsLexeme, Opens]
  | cons c rest =>
    simp only [startsLexeme, Opens, OpensNumber, singleKind?_isSome_iff, isAsciiAlnum,
      Bool.or_eq_true, Bool.and_eq_true, decide_eq_true_eq, or_assoc]

theorem continues_iff {c : Char} {rest : List Char} :
    Continues (c :: rest) ↔ (isBlank c || startsLexeme (c :: rest)) = false := by
  constructor
  · rintro ⟨hb, ho⟩
    rw [hb, Bool.false_or, Bool.eq_false_iff]
    exact fun h => ho ((startsLexeme_iff _).mp h)
  · intro h
    obtain ⟨hb, hl⟩ := Bool.or_eq_false_iff.mp h
    refine ⟨hb, fun ho => ?_⟩
    rw [(startsLexeme_iff _).mpr ho] at hl
    cases hl

theorem quietRun_nil (rest : List Char) : QuietRun rest [] :=
  fun _ hi => absurd hi (Nat.not_lt_zero _)

theorem quietRun_cons_iff {d : Char} {rest r : List Char} :
    QuietRun (d :: rest) (d :: r) ↔ Continues (d :: rest) ∧ QuietRun rest r := by
  constructor
  · intro h
    refine ⟨h 0 (by simp), fun i hi => ?_⟩
    simpa using h (i + 1) (by simp only [List.length_cons]; omega)
  · rintro ⟨h0, h⟩ i hi
    cases i with
    | zero => simpa using h0
    | succ i => simpa using h i (by simp only [List.length_cons] at hi; omega)

/-- The scanner's run continues the unrecognised run at each of its positions. -/
theorem quietRun_take_unrecognisedLength (rest : List Char) :
    QuietRun rest (rest.take (unrecognisedLength rest)) := by
  induction rest with
  | nil => exact quietRun_nil []
  | cons d rest ih =>
    cases hs : (isBlank d || startsLexeme (d :: rest)) with
    | true =>
      have h0 : unrecognisedLength (d :: rest) = 0 := by simp [unrecognisedLength, hs]
      rw [h0, List.take_zero]
      exact quietRun_nil _
    | false =>
      have hlen : unrecognisedLength (d :: rest) = unrecognisedLength rest + 1 := by
        simp only [unrecognisedLength, hs, Bool.false_eq_true, if_false]
        omega
      rw [hlen, List.take_succ_cons]
      exact quietRun_cons_iff.mpr ⟨continues_iff.mpr hs, ih⟩

/-- No stretch that continues the unrecognised run is longer than the scanner's run. -/
theorem length_le_unrecognisedLength {rest u : List Char} (hu : u <+: rest)
    (hq : QuietRun rest u) : u.length ≤ unrecognisedLength rest := by
  induction rest generalizing u with
  | nil => simp [List.prefix_nil.mp hu]
  | cons d rest ih =>
    cases u with
    | nil => simp
    | cons e u =>
      obtain ⟨rfl, hpre⟩ := List.cons_prefix_cons.mp hu
      obtain ⟨h0, hq⟩ := quietRun_cons_iff.mp hq
      have hlen : unrecognisedLength (e :: rest) = unrecognisedLength rest + 1 := by
        simp only [unrecognisedLength, continues_iff.mp h0, Bool.false_eq_true, if_false]
        omega
      have := ih hpre hq
      simp only [hlen, List.length_cons]
      omega

/-- The scanner takes the longest stretch that continues the unrecognised run. -/
theorem isLongestPrefix_quietRun (rest : List Char) :
    IsLongestPrefix (QuietRun rest) rest (rest.take (unrecognisedLength rest)) := by
  refine ⟨List.take_prefix _ _, quietRun_take_unrecognisedLength rest, fun u hu hq => ?_⟩
  rw [List.length_take, Nat.min_eq_left (unrecognisedLength_le_length rest)]
  exact length_le_unrecognisedLength hu hq

/-! ## What the scanner decides at one character -/

/-- Case folding leaves the characters below `A` alone, digits and the point among them. -/
theorem toLower_of_toNat_lt {c : Char} (h : c.toNat < 65) : c.toLower = c :=
  dif_neg fun hA => by
    have hle := UInt32.le_iff_toNat_le.mp hA.1
    have hA' : ('A' : Char).val.toNat = 65 := rfl
    have hn : c.toNat = c.val.toNat := rfl
    omega

/-- A number text is read as a decimal body: it starts with neither a sign nor a word. -/
theorem readFloat?_cons {c : Char} (rest : List Char) (hc : c.isDigit = true ∨ c = '.') :
    Decimal.readFloat? (String.ofList (c :: rest)) =
      (Decimal.readBody? (c :: rest)).map Decimal.toFloat := by
  have hlt : 46 ≤ c.toNat ∧ c.toNat < 65 := by
    rcases hc with hd | rfl
    · have := toNat_of_isDigit hd
      omega
    · decide
  have hminus : c ≠ '-' := by
    rintro rfl
    simp at hlt
  have hplus : c ≠ '+' := by
    rintro rfl
    simp at hlt
  -- a digit or a point is its own lower case, and no word starts with one
  have hword : ∀ (d : Char) (ds : List Char), 65 ≤ d.toNat →
      Decimal.lowerAscii (c :: rest) ≠ d :: ds := by
    intro d ds hd heq
    rw [Decimal.lowerAscii, List.map_cons, toLower_of_toNat_lt hlt.2] at heq
    have hcd := (List.cons.inj heq).1
    subst hcd
    omega
  have hinf : Decimal.lowerAscii (c :: rest) ≠ "inf".toList := hword 'i' _ (by decide)
  have hinfinity : Decimal.lowerAscii (c :: rest) ≠ "infinity".toList := hword 'i' _ (by decide)
  have hnan : Decimal.lowerAscii (c :: rest) ≠ "nan".toList := hword 'n' _ (by decide)
  simp only [Decimal.readFloat?, String.toList_ofList]
  split
  · next heq => exact absurd (List.cons.inj heq).1 hminus
  · next heq => exact absurd (List.cons.inj heq).1 hplus
  · simp only [Decimal.readMagnitude?, hinf, hinfinity, hnan, or_self, if_false]

theorem classify_of_singleKind? {c : Char} (rest : List Char) {k : LexemeKind}
    (h : singleKind? c = some k) : classify c rest = (k, 0) := by
  unfold singleKind? at h
  split_ifs at h with h1 h2
  · subst h1
    cases h
    rfl
  · subst h2
    cases h
    rfl
  · obtain ⟨o, ho, rfl⟩ := Option.map_eq_some_iff.mp h
    simp [classify, ho]

/-- At the start of a number the scanner takes the number and reads it. -/
theorem classify_of_opensNumber {c : Char} {rest : List Char} (h : OpensNumber (c :: rest)) :
    ∃ n d, numberLength (c :: rest) = n + 1 ∧ Decimal.readBody? (c :: rest.take n) = some d ∧
      classify c rest = (.number d.toFloat, n) := by
  have hpos := numberLength_pos h.startsNumber
  obtain ⟨n, hn⟩ : ∃ n, numberLength (c :: rest) = n + 1 :=
    ⟨_, (Nat.succ_pred_eq_of_pos hpos).symm⟩
  obtain ⟨d, hd⟩ := Option.isSome_iff_exists.mp
    (readBody?_isSome (numberText_take_numberLength h))
  rw [hn, List.take_succ_cons] at hd
  obtain ⟨h1, h2, hop⟩ := singleKind?_eq_none_iff.mp h.singleKind?_eq_none
  refine ⟨n, d, hn, hd, ?_⟩
  simp [classify, hop, h1, h2, h.isAlpha_eq_false, h.startsNumber, hn, hd]

/-- Where no lexeme of another class opens, the scanner takes an unrecognised run. -/
theorem classify_of_continues {c : Char} {rest : List Char} (h : Continues (c :: rest)) :
    classify c rest = (.unrecognised, unrecognisedLength rest) := by
  obtain ⟨-, ho⟩ := h
  have hs : singleKind? c = none :=
    Option.not_isSome_iff_eq_none.mp fun hs => ho (.inl hs)
  have ha : c.isAlpha = false := Bool.eq_false_iff.mpr fun ha => ho (.inr (.inl ha))
  have hn : (c.isDigit || (c = '.' && startsWithDigit rest)) = false := by
    rw [Bool.eq_false_iff]
    intro hn
    apply ho
    refine .inr (.inr ?_)
    simp only [Bool.or_eq_true, Bool.and_eq_true, decide_eq_true_eq] at hn
    exact hn
  obtain ⟨h1, h2, hop⟩ := singleKind?_eq_none_iff.mp hs
  simp [classify, hop, h1, h2, ha, hn]

/-! ## Maximal munch -/

/-- The rest of the text after a lexeme. -/
theorem drop_length_lexeme (c : Char) (rest : List Char) :
    (c :: rest).drop (c :: rest.take (classify c rest).2).length =
      rest.drop (classify c rest).2 := by
  have hle := classify_snd_le_length c rest
  simp [List.length_take, Nat.min_eq_left hle]

/-- At a character that is no blank, the lexer cuts the lexeme that maximal munch describes. -/
theorem munch_classify {c : Char} (rest : List Char) (hb : isBlank c = false) :
    Munch (c :: rest) (classify c rest).1 (c :: rest.take (classify c rest).2) := by
  cases hs : singleKind? c with
  | some k =>
    rw [classify_of_singleKind? rest hs]
    exact .single hs
  | none =>
  by_cases ha : c.isAlpha = true
  · have hl := isLongestPrefix_name rest ha
    rw [← take_length_takeWhile] at hl
    rw [classify_of_isAlpha rest ha]
    exact .name ha hl
  by_cases hn : OpensNumber (c :: rest)
  · obtain ⟨n, d, hlen, hd, hcl⟩ := classify_of_opensNumber hn
    have hw : c :: rest.take n = (c :: rest).take (numberLength (c :: rest)) := by
      rw [hlen, List.take_succ_cons]
    rw [hcl]
    refine .number hn (hw ▸ isLongestPrefix_number hn) ?_
    rw [readFloat?_cons _ hn.head, hd, Option.map_some]
  · -- no lexeme of another class opens: an unrecognised run
    have hc : Continues (c :: rest) := by
      refine ⟨hb, ?_⟩
      rintro (ho | ho | ho)
      · rw [hs] at ho
        cases ho
      · exact ha ho
      · exact hn ho
    rw [classify_of_continues hc]
    exact .unrecognised hc (isLongestPrefix_quietRun rest)

/-- Maximal munch describes only the lexeme the lexer cuts, at a character that is no blank. -/
theorem Munch.classify {cs : List Char} {k : LexemeKind} {w : List Char} (h : Munch cs k w) :
    ∃ c rest, cs = c :: rest ∧ isBlank c = false ∧ k = (Lexer.classify c rest).1 ∧
      w = c :: rest.take (Lexer.classify c rest).2 := by
  cases h with
  | @single c rest k hs =>
    have hcl := classify_of_singleKind? rest hs
    exact ⟨c, rest, rfl, isBlank_of_singleKind? hs, by rw [hcl], by rw [hcl]; rfl⟩
  | @name c rest w ha hl =>
    refine ⟨c, rest, rfl, isBlank_of_isAlpha ha, ?_, ?_⟩ <;> rw [classify_of_isAlpha rest ha]
    rw [take_length_takeWhile]
    exact hl.unique (isLongestPrefix_name rest ha)
  | @number cs w v hn hl hv =>
    obtain ⟨c, rest, rfl⟩ : ∃ c rest, cs = c :: rest := by
      cases cs with
      | nil => exact hn.elim
      | cons c rest => exact ⟨c, rest, rfl⟩
    obtain ⟨n, d, hlen, hd, hcl⟩ := classify_of_opensNumber hn
    have hw : w = c :: rest.take n := by
      rw [hl.unique (isLongestPrefix_number hn), hlen, List.take_succ_cons]
    have hval : v = d.toFloat := by
      rw [hw, readFloat?_cons _ hn.head, hd, Option.map_some] at hv
      exact (Option.some.inj hv).symm
    refine ⟨c, rest, rfl, hn.isBlank_eq_false, ?_, ?_⟩ <;> rw [hcl]
    · rw [hval]
    · exact hw
  | @unrecognised c rest r hc hl =>
    refine ⟨c, rest, rfl, hc.1, ?_, ?_⟩ <;> rw [classify_of_continues hc]
    rw [hl.unique (isLongestPrefix_quietRun rest)]

/-- The lexer's lexemes are a maximal-munch tokenization. -/
theorem tokenizes_lexFrom : ∀ (offset : Nat) (cs : List Char),
    Tokenizes offset cs (lexFrom offset cs)
  | offset, [] => by
    rw [lexFrom_nil]
    exact .nil offset
  | offset, c :: rest => by
    cases hb : isBlank c
    · rw [lexFrom_lexeme rest hb]
      refine .lexeme (munch_classify rest hb) ?_
      rw [drop_length_lexeme]
      exact tokenizes_lexFrom _ _
    · rw [lexFrom_blank rest hb]
      exact .blank hb (tokenizes_lexFrom _ rest)
termination_by _ cs => cs.length
decreasing_by
  all_goals simp only [List.length_cons, List.length_drop]
  all_goals omega

/-- A maximal-munch tokenization is the lexer's. -/
theorem Tokenizes.eq_lexFrom {offset : Nat} {cs : List Char} {ls : List Lexeme}
    (h : Tokenizes offset cs ls) : ls = lexFrom offset cs := by
  induction h with
  | nil offset => rw [lexFrom_nil]
  | blank hb _ ih => rw [lexFrom_blank _ hb, ih]
  | lexeme hm _ ih =>
    obtain ⟨c, rest, rfl, hb, rfl, rfl⟩ := hm.classify
    rw [lexFrom_lexeme rest hb, ih, drop_length_lexeme]

/-- The lexemes of a text are its maximal-munch tokenization, and it has no other: blanks are
skipped, a parenthesis or an operator is a lexeme by itself, a letter opens the longest name, a
digit or a point before a digit opens the longest number text with the value the number reader
gives it, and any other character opens the longest unrecognised run. -/
theorem lex_eq_iff_tokenizes (s : String) (ls : List Lexeme) :
    lex s = ls ↔ Tokenizes 0 s.toList ls := by
  constructor
  · rintro rfl
    exact tokenizes_lexFrom 0 s.toList
  · intro h
    exact h.eq_lexFrom.symm

end Formulas.Lexer
