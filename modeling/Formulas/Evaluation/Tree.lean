import Formulas.Evaluation.Basic
import Formulas.Formula.Basic
/-!
# Expression trees

The tree reading of a formula: numbers and variables at the leaves, a node for each parenthesized
group and for each operator with its two operands. A tree evaluates its left operand, then its
right one, then combines them, and prints back to the tokens it stands for.
-/

namespace Formulas

/-- An expression tree. -/
inductive Expr where
  | number (value : Float) (literal : String)
  | var (name : String)
  /-- A parenthesized expression. -/
  | group (e : Expr)
  | binary (o : Operator) (lhs rhs : Expr)

namespace Expr

/-- Evaluates the tree: left operand first, then right, then the operator. -/
def eval (lookup : Lookup) : Expr → EvalM Float
  | number v _ => pure v
  | var name => ask lookup name
  | group e => e.eval lookup
  | binary o lhs rhs => do
    let a ← lhs.eval lookup
    let b ← rhs.eval lookup
    o.perform a b

/-- The tokens the tree stands for. -/
def tokens : Expr → List Token
  | number v literal => [.number v literal]
  | var name => [.var name]
  | group e => .openParen :: e.tokens ++ [.closeParen]
  | binary o lhs rhs => lhs.tokens ++ .operator o :: rhs.tokens

end Expr

end Formulas
