import Formulas.Formula.Basic
import Formulas.Formula.Error
import Formulas.Lexeme.Lexer
/-!
# The syntax check

A text is a formula when its lexemes follow `Expr ::= Atom (Op Atom)*` with
`Atom ::= number | name | ( Expr )`. One pass from left to right decides it. The pass keeps what
the last lexeme allows next and how many parentheses are open, and stops at the first lexeme that
the grammar cannot continue with. The end of the text is then checked, in this order: no lexemes
at all, parentheses still open, and a last lexeme that is no operand.
-/

namespace Formulas

/-- What the lexemes accepted so far allow next. -/
inductive Position where
  /-- At the start or after `(`: an operand or `(` must come. -/
  | opening
  /-- After a number, a name or `)`: an operator or `)` may come, or the end. -/
  | operand
  /-- After an operator: an operand or `(` must come. -/
  | operator (op : Operator)
  deriving DecidableEq, Repr

/-- The state of the syntax check after some lexemes. -/
structure Checker where
  position : Position
  /-- The number of `(` not yet closed. -/
  depth : Nat
  /-- The tokens accepted so far, the last one first. -/
  accepted : List Token

namespace Checker

/-- The state before any lexeme. -/
def initial : Checker := ⟨.opening, 0, []⟩

/-- The state after accepting one more token. -/
def push (st : Checker) (t : Token) (p : Position) (depth : Nat) : Checker :=
  ⟨p, depth, t :: st.accepted⟩

/-- Accepts a lexeme if the grammar can continue with it. A fault is located at the lexeme. -/
def step (st : Checker) (l : Lexeme) : Except SyntaxError Checker :=
  let fail := fun fault => Except.error (SyntaxError.mk fault l.offset l.length)
  match l.kind with
  | .unrecognised => fail (.unrecognizedSymbol l.text)
  | .number v =>
    if st.position = .operand then fail (.operandFollowsOperand l.text)
    else .ok (st.push (.number v l.text) .operand st.depth)
  | .name =>
    if st.position = .operand then fail (.operandFollowsOperand l.text)
    else .ok (st.push (.var l.text) .operand st.depth)
  | .operator o =>
    match st.position with
    | .operand => .ok (st.push (.operator o) (.operator o) st.depth)
    | .operator _ => fail (.adjacentOperators o)
    | .opening => fail (.operatorMissingLeftOperand o)
  | .openParen =>
    if st.position = .operand then fail .operandBeforeOpenParen
    else .ok (st.push .openParen .opening (st.depth + 1))
  | .closeParen =>
    if st.depth = 0 then fail .unmatchedClosingParen
    else match st.position with
      | .operand => .ok (st.push .closeParen .operand (st.depth - 1))
      | .opening => fail .emptyGroup
      | .operator o => fail (.operatorMissingRightOperand o)

/-- Accepts lexemes one by one, stopping at the first fault. -/
def run (st : Checker) : List Lexeme → Except SyntaxError Checker
  | [] => .ok st
  | l :: ls =>
    match st.step l with
    | .ok st' => st'.run ls
    | .error e => .error e

/-- The end checks, given the state after all lexemes and the last lexeme. -/
def finish (st : Checker) (last : Lexeme) : Except SyntaxError Formula :=
  if st.depth ≠ 0 then .error ⟨.unclosedParenthesis st.depth, last.offset, last.length⟩
  else if st.position ≠ .operand then .error ⟨.danglingEnd, last.offset, last.length⟩
  else .ok ⟨st.accepted.reverse⟩

end Checker

namespace Formula

/-- Checks a text against the formula grammar: its formula, or the first fault found. -/
def parse (s : String) : Except SyntaxError Formula :=
  let ls := lex s
  match ls.getLast? with
  | none => .error ⟨.emptyFormula, s.utf8ByteSize, 0⟩
  | some last =>
    match Checker.initial.run ls with
    | .error e => .error e
    | .ok st => st.finish last

end Formula

end Formulas
