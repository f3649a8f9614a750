import Formulas.Operator
import Formulas.Decimal.Plain
/-!
# Lexemes

A lexeme is a stretch of formula text with its class: a number with its value, a name, an
operator, a parenthesis, or a run of characters that starts none of these. It keeps its text and
the byte offset where it starts, so that errors can point at it.
-/

namespace Formulas

/-- The class of a lexeme. -/
inductive LexemeKind where
  /-- A number literal and the double it denotes. -/
  | number (value : Float)
  /-- A name: an ASCII letter, then ASCII letters and digits. -/
  | name
  | operator (op : Operator)
  | openParen
  | closeParen
  /-- A run of characters that starts no other lexeme. -/
  | unrecognised

/-- A classified stretch of formula text. -/
structure Lexeme where
  kind : LexemeKind
  /-- The characters of the lexeme, as written. -/
  text : String
  /-- The UTF-8 byte offset of the lexeme's first character. -/
  offset : Nat

namespace LexemeKind

/-- The upper-case tag of a class, as the token listing writes it. -/
def tag : LexemeKind → String
  | number _ => "NUMBER"
  | name => "VARIABLE"
  | operator .plus => "PLUS"
  | operator .minus => "MINUS"
  | operator .star => "STAR"
  | operator .slash => "SLASH"
  | openParen => "LEFT_PAREN"
  | closeParen => "RIGHT_PAREN"
  | unrecognised => "INVALID"

end LexemeKind

/-- The text of a number's value in the token listing: a value equal to its truncation, the
infinities included, is marked with `.0`. -/
def listedValue (v : Float) : String :=
  Decimal.floatText v ++ (if Decimal.isIntegralValue v then ".0" else "")

namespace Lexeme

/-- The number of bytes the lexeme spans. -/
def length (l : Lexeme) : Nat := l.text.utf8ByteSize

/-- One line of the token listing: tag, text, and the value of a number or else `null`. -/
def listing (l : Lexeme) : String :=
  let value := match l.kind with
    | .number v => listedValue v
    | _ => "null"
  l.kind.tag ++ " " ++ l.text ++ " " ++ value

end Lexeme

/-- The last line of a token listing. -/
def endOfListing : String := "EOF  null"

end Formulas
