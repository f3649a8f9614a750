import Formulas.Proofs.Munch
/-!
# Where each lexeme lies in its text

A lexeme records the byte offset where its text starts, and an error label marks the bytes from
that offset over the length of the text. The lexer counts the offset on its own, adding the bytes
of every blank it skips and of every lexeme it cuts, while it goes on with the rest of the
characters. This module shows that the count stays in step with the text. Every lexeme's text is
a stretch without blanks, never empty, that stands in the text at its offset, starting and ending
between two characters; each lexeme ends before the next one starts; and every byte that no
lexeme covers belongs to a blank. So the texts of the lexemes, put together, are the text with
its blanks left out.

Each fact is proved once of every maximal-munch tokenization (`Tokenizes`), by induction over it,
and read off for the lexer's own tokenization at the end. Main statement: `lex_spans`.
-/

namespace Formulas.Lexer

open Text

/-! ## Byte lengths -/

theorem foldl_utf8Size (n : Nat) (cs : List Char) :
    cs.foldl (fun n c => n + c.utf8Size) n = n + byteLength cs := by
  induction cs generalizing n with
  | nil => rfl
  | cons c cs ih =>
    have h1 : byteLength (c :: cs) = cs.foldl (fun n c => n + c.utf8Size) (0 + c.utf8Size) := rfl
    rw [List.foldl_cons, h1, ih, ih]
    omega

@[simp] theorem byteLength_nil : byteLength [] = 0 := rfl

@[simp] theorem byteLength_cons (c : Char) (cs : List Char) :
    byteLength (c :: cs) = c.utf8Size + byteLength cs := by
  rw [byteLength, List.foldl_cons, foldl_utf8Size]
  omega

@[simp] theorem byteLength_append (xs ys : List Char) :
    byteLength (xs ++ ys) = byteLength xs + byteLength ys := by
  rw [byteLength, List.foldl_append, foldl_utf8Size, foldl_utf8Size]
  omega

/-- The UTF-8 encoding of some characters takes as many bytes as the lexer counts for them. -/
theorem size_utf8Encode (cs : List Char) : cs.utf8Encode.size = byteLength cs := by
  induction cs with
  | nil => rfl
  | cons c cs ih =>
    have hc : [c].utf8Encode.size = c.utf8Size := by
      rw [← String.toByteArray_singleton, String.size_toByteArray, String.utf8ByteSize_singleton]
    rw [List.utf8Encode_cons, ByteArray.size_append, ih, hc, byteLength_cons]

theorem utf8ByteSize_ofList (cs : List Char) : (String.ofList cs).utf8ByteSize = byteLength cs := by
  rw [← String.size_toByteArray, String.toByteArray_ofList, size_utf8Encode]

theorem utf8ByteSize_eq_byteLength (t : String) : t.utf8ByteSize = byteLength t.toList := by
  rw [← utf8ByteSize_ofList, String.ofList_toList]

/-- A string that stands in a text after the characters `pre` starts and ends between two
characters of the text, and the text's bytes there are the string's. -/
theorem slice_of_split {s t : String} {pre post : List Char}
    (h : s.toList = pre ++ t.toList ++ post) :
    (String.Pos.Raw.mk (byteLength pre)).IsValid s ∧
      (String.Pos.Raw.mk (byteLength pre + t.utf8ByteSize)).IsValid s ∧
      s.toByteArray.extract (byteLength pre) (byteLength pre + t.utf8ByteSize) = t.toByteArray := by
  have hs : s = String.ofList (pre ++ t.toList ++ post) := by rw [← h, String.ofList_toList]
  subst hs
  rw [utf8ByteSize_eq_byteLength]
  refine ⟨String.Pos.Raw.isValid_ofList.mpr ⟨pre.length, ?_⟩,
    String.Pos.Raw.isValid_ofList.mpr ⟨(pre ++ t.toList).length, ?_⟩, ?_⟩
  · rw [List.append_assoc, List.take_left, utf8ByteSize_ofList]
  · rw [List.take_left, utf8ByteSize_ofList, byteLength_append]
  · -- the bytes of the text are those of the characters before, of `t` and after, in turn
    rw [String.toByteArray_ofList, List.utf8Encode_append, List.utf8Encode_append,
      ByteArray.append_assoc, ← size_utf8Encode, ← size_utf8Encode, ← String.utf8Encode_toList]
    have hslice := @ByteArray.extract_append_size_add pre.utf8Encode
      (t.toList.utf8Encode ++ post.utf8Encode) 0 t.toList.utf8Encode.size
    rw [Nat.add_zero] at hslice
    rw [hslice]
    exact ByteArray.extract_append_eq_left rfl

/-! ## No lexeme holds a blank -/

theorem isBlank_of_isAsciiAlnum {c : Char} (h : isAsciiAlnum c = true) : isBlank c = false := by
  rcases Bool.or_eq_true_iff.mp h with ha | hd
  · exact isBlank_of_isAlpha ha
  · have := toNat_of_isDigit hd
    exact isBlank_eq_false_of_toNat (by omega) (by omega)

theorem Digits.isBlank_eq_false {ds : List Char} (h : Digits ds) :
    ∀ c ∈ ds, isBlank c = false := by
  intro c hc
  have := toNat_of_isDigit (h c hc)
  exact isBlank_eq_false_of_toNat (by omega) (by omega)

theorem NameText.isBlank_eq_false {w : List Char} (h : NameText w) :
    ∀ c ∈ w, isBlank c = false := by
  cases w with
  | nil => exact h.elim
  | cons d ds =>
    intro c hc
    rcases List.mem_cons.mp hc with rfl | hc
    · exact isBlank_of_isAlpha h.1
    · exact isBlank_of_isAsciiAlnum (h.2 c hc)

/-- A number is written with digits, a point, `e` or `E` and a sign only. -/
theorem NumberText.isBlank_eq_false {w : List Char} (h : NumberText w) :
    ∀ c ∈ w, isBlank c = false := by
  obtain ⟨m, x, rfl, hm, hx⟩ := h
  intro c hc
  rcases List.mem_append.mp hc with hc | hc
  · cases hm with
    | point hws hfs _ =>
      rcases List.mem_append.mp hc with hc | hc
      · exact Digits.isBlank_eq_false hws c hc
      · rcases List.mem_cons.mp hc with rfl | hc
        · decide
        · exact Digits.isBlank_eq_false hfs c hc
    | whole hws _ => exact Digits.isBlank_eq_false hws c hc
  · cases hx with
    | none => cases hc
    | unsigned he hds _ =>
      rcases List.mem_cons.mp hc with rfl | hc
      · rcases he with rfl | rfl <;> decide
      · exact Digits.isBlank_eq_false hds c hc
    | signed he hs hds _ =>
      rcases List.mem_cons.mp hc with rfl | hc
      · rcases he with rfl | rfl <;> decide
      rcases List.mem_cons.mp hc with rfl | hc
      · rcases hs with rfl | rfl <;> decide
      · exact Digits.isBlank_eq_false hds c hc

/-- An unrecognised run stops before a blank. -/
theorem QuietRun.isBlank_eq_false : ∀ {rest r : List Char}, QuietRun rest r → r <+: rest →
    ∀ c ∈ r, isBlank c = false
  | _, [], _, _ => fun _ hc => absurd hc List.not_mem_nil
  | rest, d :: r, hq, hp => by
    obtain ⟨rest', rfl⟩ : ∃ rest', rest = d :: rest' := by
      obtain ⟨t, rfl⟩ := hp
      exact ⟨r ++ t, rfl⟩
    obtain ⟨hd, hq'⟩ := quietRun_cons_iff.mp hq
    intro c hc
    rcases List.mem_cons.mp hc with rfl | hc
    · exact hd.1
    · exact QuietRun.isBlank_eq_false hq' (List.cons_prefix_cons.mp hp).2 c hc

namespace Munch

variable {cs w : List Char} {k : LexemeKind}

/-- A lexeme is cut from the start of the text. -/
theorem isPrefix (h : Munch cs k w) : w <+: cs := by
  obtain ⟨c, rest, rfl, -, -, rfl⟩ := h.classify
  exact (List.prefix_cons_inj c).mpr (List.take_prefix _ _)

theorem ne_nil (h : Munch cs k w) : w ≠ [] := by
  obtain ⟨c, rest, -, -, -, rfl⟩ := h.classify
  exact List.cons_ne_nil _ _

theorem cs_eq_append (h : Munch cs k w) : cs = w ++ cs.drop w.length := by
  obtain ⟨t, rfl⟩ := h.isPrefix
  simp

theorem isBlank_eq_false (h : Munch cs k w) : ∀ c ∈ w, isBlank c = false := by
  cases h with
  | single hs =>
    intro c hc
    rw [List.mem_singleton.mp hc]
    exact isBlank_of_singleKind? hs
  | name _ hl => exact NameText.isBlank_eq_false hl.2.1
  | number _ hl _ => exact NumberText.isBlank_eq_false hl.2.1
  | unrecognised hc hl =>
    intro d hd
    rcases List.mem_cons.mp hd with rfl | hd
    · exact hc.1
    · exact QuietRun.isBlank_eq_false hl.2.1 hl.1 d hd

end Munch

/-! ## The spans of a tokenization -/

theorem lexeme_length_ofList (k : LexemeKind) (w : List Char) (offset : Nat) :
    (⟨k, String.ofList w, offset⟩ : Lexeme).length = byteLength w :=
  utf8ByteSize_ofList w

namespace Tokenizes

variable {offset : Nat} {cs : List Char} {ls : List Lexeme}

theorem text_ne_nil (h : Tokenizes offset cs ls) :
    ∀ l ∈ ls, l.text.toList ≠ [] ∧ ∀ c ∈ l.text.toList, isBlank c = false := by
  induction h with
  | nil => exact fun _ hl => absurd hl List.not_mem_nil
  | blank _ _ ih => exact ih
  | lexeme hm _ ih =>
    intro l hl
    rcases List.mem_cons.mp hl with rfl | hl
    · rw [String.toList_ofList]
      exact ⟨hm.ne_nil, hm.isBlank_eq_false⟩
    · exact ih l hl

/-- Every lexeme's text stands in the text after characters that take as many bytes as the
lexeme's offset lies past the start. -/
theorem located (h : Tokenizes offset cs ls) :
    ∀ l ∈ ls, ∃ pre post, cs = pre ++ l.text.toList ++ post ∧
      l.offset = offset + byteLength pre := by
  induction h with
  | nil => exact fun _ hl => absurd hl List.not_mem_nil
  | @blank offset c rest ls _ _ ih =>
    intro l hl
    obtain ⟨pre, post, hcs, hoff⟩ := ih l hl
    refine ⟨c :: pre, post, by rw [hcs]; rfl, ?_⟩
    rw [hoff, byteLength_cons]
    omega
  | @lexeme offset cs w k ls hm _ ih =>
    intro l hl
    rcases List.mem_cons.mp hl with rfl | hl
    · refine ⟨[], cs.drop w.length, ?_, rfl⟩
      rw [String.toList_ofList, List.nil_append]
      exact hm.cs_eq_append
    · obtain ⟨pre, post, hrest, hoff⟩ := ih l hl
      refine ⟨w ++ pre, post, ?_, ?_⟩
      · rw [hm.cs_eq_append, hrest]
        simp
      · rw [hoff, byteLength_append]
        omega

theorem le_offset (h : Tokenizes offset cs ls) : ∀ l ∈ ls, offset ≤ l.offset := by
  intro l hl
  obtain ⟨pre, -, -, hoff⟩ := h.located l hl
  omega

/-- Each lexeme ends before any later one starts. -/
theorem pairwise (h : Tokenizes offset cs ls) :
    ls.Pairwise fun a b => a.offset + a.length ≤ b.offset := by
  induction h with
  | nil => exact List.Pairwise.nil
  | blank _ _ ih => exact ih
  | lexeme _ hrest ih =>
    refine List.Pairwise.cons (fun l hl => ?_) ih
    rw [lexeme_length_ofList]
    exact hrest.le_offset l hl

/-- The texts of the lexemes, put together, are the text without its blanks. -/
theorem flatMap_text (h : Tokenizes offset cs ls) :
    ls.flatMap (fun l => l.text.toList) = cs.filter fun c => !isBlank c := by
  induction h with
  | nil => rfl
  | blank hb _ ih => simp [hb, ih]
  | @lexeme offset cs w k ls hm _ ih =>
    have hw : w.filter (fun c => !isBlank c) = w :=
      List.filter_eq_self.mpr fun c hc => by simp [hm.isBlank_eq_false c hc]
    rw [List.flatMap_cons, ih, String.toList_ofList]
    conv => rhs; rw [hm.cs_eq_append]
    rw [List.filter_append, hw]

/-- A byte of the text that no lexeme covers belongs to a blank. -/
theorem blank_of_outside (h : Tokenizes offset cs ls) :
    ∀ i, offset ≤ i → i < offset + byteLength cs →
      (∀ l ∈ ls, ¬(l.offset ≤ i ∧ i < l.offset + l.length)) →
      ∃ pre c post, cs = pre ++ c :: post ∧ isBlank c = true ∧
        offset + byteLength pre ≤ i ∧ i < offset + byteLength pre + c.utf8Size := by
  induction h with
  | nil offset =>
    intro i h1 h2 _
    rw [byteLength_nil] at h2
    omega
  | @blank offset c rest ls hb _ ih =>
    intro i h1 h2 hout
    by_cases hi : i < offset + c.utf8Size
    · exact ⟨[], c, rest, rfl, hb, by simpa using h1, by simpa using hi⟩
    · rw [byteLength_cons] at h2
      obtain ⟨pre, d, post, hrest, hd, h3, h4⟩ := ih i (by omega) (by omega) hout
      refine ⟨c :: pre, d, post, by rw [hrest]; rfl, hd, ?_, ?_⟩ <;> rw [byteLength_cons] <;> omega
  | @lexeme offset cs w k ls hm _ ih =>
    intro i h1 h2 hout
    -- the byte lies past the first lexeme, which it would otherwise be covered by
    have hw : offset + byteLength w ≤ i := by
      have hhead : ¬(offset ≤ i ∧ i < offset + byteLength w) := by
        simpa only [lexeme_length_ofList] using hout _ List.mem_cons_self
      omega
    have hlen : byteLength cs = byteLength w + byteLength (cs.drop w.length) := by
      conv => lhs; rw [hm.cs_eq_append]
      rw [byteLength_append]
    obtain ⟨pre, d, post, hrest, hd, h3, h4⟩ :=
      ih i hw (by omega) fun l hl => hout l (List.mem_cons_of_mem _ hl)
    refine ⟨w ++ pre, d, post, ?_, hd, ?_, ?_⟩
    · rw [hm.cs_eq_append, hrest]
      simp
    all_goals rw [byteLength_append]; omega

end Tokenizes

end Formulas.Lexer

namespace Formulas

open Lexer Text

/-- Every lexeme of a text is a nonempty stretch without blanks. It stands in the text at its
offset: both ends of its span fall between two characters, and the text's bytes over the span
are the lexeme's text. Each lexeme ends before any later one starts, and every byte that no span
covers belongs to a blank. So the texts of the lexemes, put together, are the text with its
blanks left out. -/
theorem lex_spans (s : String) :
    (∀ l ∈ lex s, l.text ≠ "" ∧ ∀ c ∈ l.text.toList, isBlank c = false) ∧
      (∀ l ∈ lex s, (String.Pos.Raw.mk l.offset).IsValid s ∧
        (String.Pos.Raw.mk (l.offset + l.length)).IsValid s ∧
        s.toByteArray.extract l.offset (l.offset + l.length) = l.text.toByteArray) ∧
      (lex s).Pairwise (fun a b => a.offset + a.length ≤ b.offset) ∧
      (∀ i < s.utf8ByteSize, (∀ l ∈ lex s, ¬(l.offset ≤ i ∧ i < l.offset + l.length)) →
        ∃ pre c post, s.toList = pre ++ c :: post ∧ isBlank c = true ∧
          byteLength pre ≤ i ∧ i < byteLength pre + c.utf8Size) ∧
      (lex s).flatMap (fun l => l.text.toList) = s.toList.filter (fun c => !isBlank c) := by
  have h := tokenizes_lexFrom 0 s.toList
  refine ⟨fun l hl => ?_, fun l hl => ?_, h.pairwise, fun i hi hout => ?_, h.flatMap_text⟩
  · obtain ⟨hne, hb⟩ := h.text_ne_nil l hl
    exact ⟨fun he => hne (by rw [he]; rfl), hb⟩
  · obtain ⟨pre, post, hs, hoff⟩ := h.located l hl
    rw [Nat.zero_add] at hoff
    rw [hoff]
    exact slice_of_split hs
  · have hsize := utf8ByteSize_eq_byteLength s
    obtain ⟨pre, c, post, hs, hc, h1, h2⟩ :=
      h.blank_of_outside i (Nat.zero_le i) (by omega) hout
    exact ⟨pre, c, post, hs, hc, by omega, by omega⟩

end Formulas
