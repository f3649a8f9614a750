/-!
# Blank characters

The characters that separate lexemes, and that trimming removes from both ends of a text: the
code points with the Unicode property White_Space, 25 of them in ten ranges. Core's
`Char.isWhitespace` knows only four of them, so the table is carried here.
-/

namespace Formulas.Text

/-- Closed ranges of the White_Space code points, ascending and apart. -/
def blankRanges : List (Nat × Nat) :=
  [(0x09, 0x0D), (0x20, 0x20), (0x85, 0x85), (0xA0, 0xA0), (0x1680, 0x1680), (0x2000, 0x200A),
   (0x2028, 0x2029), (0x202F, 0x202F), (0x205F, 0x205F), (0x3000, 0x3000)]

/-- A blank is a character with the Unicode property White_Space. -/
def isBlank (c : Char) : Bool :=
  blankRanges.any fun r => r.1 ≤ c.toNat && c.toNat ≤ r.2

/-- The characters without the blanks at either end. -/
def trimBlankList (cs : List Char) : List Char :=
  ((cs.dropWhile isBlank).reverse.dropWhile isBlank).reverse

/-- Every character that core calls whitespace is blank. -/
theorem isBlank_of_isWhitespace (c : Char) (h : c.isWhitespace = true) : isBlank c = true := by
  simp [Char.isWhitespace] at h
  rcases h with ((h | h) | h) | h <;> subst h <;> decide

/-- The table holds 25 code points; the zero-width space is not among them. -/
example : (blankRanges.map fun r => r.2 + 1 - r.1).sum = 25 ∧ isBlank '\u3000' = true ∧
    isBlank '\u200B' = false := by decide

end Formulas.Text
