import Formulas.Operator
/-!
# Formulas

A formula is the token sequence of a text that passed the syntax check: numbers with their value
and literal, variable names, operators and parentheses. It prints as the texts of its tokens
joined by single spaces, and its variables are its distinct names in order of first appearance.
Two formulas are equal when their tokens are, numbers compared by value as doubles (so `0` and
`-0` agree and not-a-number agrees with nothing) and by literal.
-/

namespace Formulas

/-- A token of a checked formula. -/
inductive Token where
  /-- A number: the double it denotes and the literal it was written as. -/
  | number (value : Float) (literal : String)
  /-- A variable, by name. -/
  | var (name : String)
  | operator (op : Operator)
  | openParen
  | closeParen

/-- A formula that passed the syntax check, as its tokens. -/
structure Formula where
  tokens : List Token

namespace Token

/-- The text a token prints as: a number keeps its literal. -/
def text : Token → String
  | number _ literal => literal
  | var name => name
  | operator o => o.symbol
  | openParen => "("
  | closeParen => ")"

/-- The name of a variable token. -/
def name? : Token → Option String
  | var name => some name
  | _ => none

/-- Token equality: numbers by value, with the double comparison, and by literal. -/
def beq : Token → Token → Bool
  | number v l, number w m => v == w && l == m
  | var a, var b => a == b
  | operator o, operator p => o == p
  | openParen, openParen => true
  | closeParen, closeParen => true
  | _, _ => false

instance : BEq Token := ⟨beq⟩

end Token

namespace Formula

instance : BEq Formula := ⟨fun f g => f.tokens == g.tokens⟩

/-- The formula's tokens printed with one space between each two. -/
def render (f : Formula) : String := " ".intercalate (f.tokens.map Token.text)

/-- The list with later repeats of an element left out. -/
def firstOccurrences (xs : List String) : List String :=
  xs.foldl (fun seen x => if seen.contains x then seen else seen ++ [x]) []

/-- The distinct variable names, in order of first appearance. -/
def variableNames (f : Formula) : List String := firstOccurrences (f.tokens.filterMap Token.name?)

end Formula

end Formulas
