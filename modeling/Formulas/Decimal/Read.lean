import Formulas.Decimal.Basic
/-!
# Reading decimal text

Two grammars. A *decimal body* is digits with at most one point and at least one digit, then an
optional exponent: `e` or `E`, an optional sign and at least one digit. A *number text* is an
optional sign and then a decimal body or one of the words `inf`, `infinity` and `nan`, in any
case. Both must use the whole text. A body denotes the decimal of its digits; a number text
denotes the double nearest to it, so `1e400` reads as infinity and `1e-400` as zero.
-/

namespace Formulas.Decimal

/-- Reads an exponent part: nothing at all, or `e`/`E`, an optional sign and one digit or more. -/
def readExponent? : List Char → Option Int
  | [] => some 0
  | c :: rest =>
    if c = 'e' ∨ c = 'E' then
      let (negative, ds) := match rest with
        | '-' :: ds => (true, ds)
        | '+' :: ds => (false, ds)
        | ds => (false, ds)
      if !ds.isEmpty && ds.all Char.isDigit then
        some (if negative then -(digitsValue ds : Int) else digitsValue ds)
      else none
    else none

/-- Reads a decimal body: `12`, `1.5`, `5.`, `.5`, `2.5e9`, `1E-3`; not `.`, `e5` or `1e`. -/
def readBody? (cs : List Char) : Option Decimal :=
  let whole := cs.takeWhile Char.isDigit
  let (frac, rest) := match cs.dropWhile Char.isDigit with
    | '.' :: r => (r.takeWhile Char.isDigit, r.dropWhile Char.isDigit)
    | r => ([], r)
  if whole.isEmpty && frac.isEmpty then none
  else (readExponent? rest).map fun e => ⟨digitsValue (whole ++ frac), e - frac.length⟩

/-- ASCII case folding, enough to compare with the lower-case words of the grammar. -/
def lowerAscii (cs : List Char) : List Char := cs.map Char.toLower

/-- Reads the text after the sign: a decimal body, or a word for infinity or not-a-number. -/
def readMagnitude? (cs : List Char) : Option Float :=
  let word := lowerAscii cs
  if word = "inf".toList ∨ word = "infinity".toList then some (1.0 / 0.0)
  else if word = "nan".toList then some (0.0 / 0.0)
  else (readBody? cs).map toFloat

/-- Reads a number text: an optional `+` or `-`, then a decimal body or a word. -/
def readFloat? (s : String) : Option Float :=
  match s.toList with
  | '-' :: cs => (readMagnitude? cs).map (- ·)
  | '+' :: cs => readMagnitude? cs
  | cs => readMagnitude? cs

example : readBody? "2.5e9".toList = some ⟨25, 8⟩ ∧ readBody? ".5".toList = some ⟨5, -1⟩ ∧
    readBody? "5.".toList = some ⟨5, 0⟩ ∧ readBody? ".".toList = none ∧
    readBody? "1e".toList = none ∧ readBody? "1e+".toList = none := by decide

end Formulas.Decimal
