/-!
# Operators

The four binary operators of a formula. `*` and `/` are multiplicative and bind tighter than the
additive `+` and `-`; operators of one class group to the left.
-/

namespace Formulas

/-- A binary arithmetic operator. -/
inductive Operator where
  | plus
  | minus
  | star
  | slash
  deriving DecidableEq, Repr

namespace Operator

/-- The character that writes the operator. -/
def char : Operator → Char
  | plus => '+'
  | minus => '-'
  | star => '*'
  | slash => '/'

/-- The text that writes the operator. -/
def symbol (o : Operator) : String := String.singleton o.char

/-- The operator a character writes, if it writes one. -/
def ofChar? : Char → Option Operator
  | '+' => some plus
  | '-' => some minus
  | '*' => some star
  | '/' => some slash
  | _ => none

/-- Multiplication and division bind tighter than addition and subtraction. -/
def isMultiplicative : Operator → Bool
  | star | slash => true
  | plus | minus => false

/-- The operator on doubles. -/
def apply : Operator → Float → Float → Float
  | plus => (· + ·)
  | minus => (· - ·)
  | star => (· * ·)
  | slash => (· / ·)

theorem ofChar?_char (o : Operator) : ofChar? o.char = some o := by
  cases o <;> rfl

theorem char_of_ofChar? {c : Char} {o : Operator} (h : ofChar? c = some o) : o.char = c := by
  unfold ofChar? at h
  split at h <;> first | (cases h; rfl) | cases h

end Operator

end Formulas
