import Formulas.Operator
/-!
# Syntax errors

Why a text is no formula, and where. Each fault has a message that states it and a help text that
says how to mend it; the error adds the byte span of the lexeme at fault, or of the last lexeme
when the text ends too early, or the empty span at the end of an empty text.
-/

namespace Formulas

/-- The rule of the formula grammar that a text broke. -/
inductive SyntaxFault where
  /-- The text has no lexemes. -/
  | emptyFormula
  /-- A run of characters that starts no lexeme. -/
  | unrecognizedSymbol (text : String)
  /-- A number or name right after an operand. -/
  | operandFollowsOperand (text : String)
  /-- An operator at the start or right after `(`. -/
  | operatorMissingLeftOperand (op : Operator)
  /-- An operator right after another. -/
  | adjacentOperators (op : Operator)
  /-- A `)` right after an operator. -/
  | operatorMissingRightOperand (op : Operator)
  /-- A `(` right after an operand. -/
  | operandBeforeOpenParen
  /-- A `)` with no `(` open. -/
  | unmatchedClosingParen
  /-- A `)` right after `(`. -/
  | emptyGroup
  /-- The text ends with this many `(` open. -/
  | unclosedParenthesis (depth : Nat)
  /-- The text ends with an operator or `(`. -/
  | danglingEnd
  deriving DecidableEq, Repr

/-- A syntax fault located at a span of bytes of the text. -/
structure SyntaxError where
  fault : SyntaxFault
  /-- The byte offset where the span starts. -/
  offset : Nat
  /-- The number of bytes the span covers. -/
  length : Nat
  deriving DecidableEq, Repr

namespace SyntaxFault

/-- The name of the fault's kind. -/
def tag : SyntaxFault → String
  | emptyFormula => "EmptyFormula"
  | unrecognizedSymbol _ => "UnrecognizedSymbol"
  | operandFollowsOperand _ => "OperandFollowsOperand"
  | operatorMissingLeftOperand _ => "OperatorMissingLeftOperand"
  | adjacentOperators _ => "AdjacentOperators"
  | operatorMissingRightOperand _ => "OperatorMissingRightOperand"
  | operandBeforeOpenParen => "OperandBeforeOpenParen"
  | unmatchedClosingParen => "UnmatchedClosingParen"
  | emptyGroup => "EmptyGroup"
  | unclosedParenthesis _ => "UnclosedParenthesis"
  | danglingEnd => "DanglingEnd"

/-- A text quoted in backticks. -/
def quoted (s : String) : String := "`" ++ s ++ "`"

/-- The statement of the fault. -/
def message : SyntaxFault → String
  | emptyFormula => "no tokens in formula"
  | unrecognizedSymbol s => "unrecognized symbol " ++ quoted s
  | operandFollowsOperand s => "operand " ++ quoted s ++ " follows another operand"
  | operatorMissingLeftOperand o => "operator " ++ quoted o.symbol ++ " is missing its left operand"
  | adjacentOperators o => "operator " ++ quoted o.symbol ++ " directly follows another operator"
  | operatorMissingRightOperand o =>
    "operator " ++ quoted o.symbol ++ " is missing its right operand"
  | operandBeforeOpenParen => "operand directly followed by an open parenthesis"
  | unmatchedClosingParen => "unmatched closing parenthesis"
  | emptyGroup => "empty parenthesized group"
  | unclosedParenthesis n => "unbalanced parentheses: " ++ toString n ++ " left unclosed"
  | danglingEnd => "formula ends with an operator or open parenthesis"

/-- How to mend the fault. -/
def help : SyntaxFault → String
  | emptyFormula => "write a number, a variable or a parenthesized expression"
  | unrecognizedSymbol s => "remove or correct the symbol: " ++ quoted s
  | operandFollowsOperand _ => "put an operator between the two operands"
  | operatorMissingLeftOperand o =>
    quoted o.symbol ++ " is always binary; negative numbers are written as " ++ quoted "0 - x"
  | adjacentOperators _ => "remove one of the operators"
  | operatorMissingRightOperand o => "add an operand after " ++ quoted o.symbol
  | operandBeforeOpenParen => "multiplication must be explicit, use `*` before `(`"
  | unmatchedClosingParen => "remove the `)` or add a matching `(` before it"
  | emptyGroup => "put an expression between `(` and `)`"
  | unclosedParenthesis n =>
    "add " ++ toString n ++ (if n = 1 then " closing parenthesis" else " closing parentheses")
  | danglingEnd => "finish the formula with a number or a variable"

end SyntaxFault

/-- The diagnostic code of every syntax error. -/
def SyntaxError.code : String := "formula::syntax"

end Formulas
