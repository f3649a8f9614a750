import Formulas.Evaluation.Basic
import Formulas.Formula.Basic
/-!
# The evaluation machine

A checked formula is evaluated in one pass over its tokens with two stacks: the values, and the
pending operators with a barrier for each open parenthesis. An operand is pushed as a value.
Before an operator is pushed, the pending operators on top that bind at least as tightly are
applied, so operators of one class group to the left and `*`, `/` before `+`, `-`. A `)` applies
the operators down to its barrier and removes it; the end applies all that remain. An operator
takes the two top values, the lower one as its left operand.
-/

namespace Formulas

/-- An entry of the pending stack. -/
inductive Pending where
  | operator (o : Operator)
  /-- Marks an open parenthesis. -/
  | barrier
  deriving DecidableEq, Repr

/-- The two stacks of the machine, tops first. -/
structure Machine where
  values : List Float
  pending : List Pending

namespace Machine

/-- Applies an operator to the two top values, replacing them by the result. -/
def applyTop (o : Operator) : List Float → EvalM (List Float)
  | b :: a :: rest => do
    let v ← o.perform a b
    pure (v :: rest)
  | _ => throw .stuck

/-- Before `o` is pushed: applies the pending operators on top that bind at least as tightly. -/
def settle (o : Operator) (values : List Float) :
    List Pending → EvalM (List Float × List Pending)
  | .operator top :: rest =>
    if top.isMultiplicative || !o.isMultiplicative then do
      let vs ← applyTop top values
      settle o vs rest
    else pure (values, .operator top :: rest)
  | ps => pure (values, ps)

/-- At `)`: applies the pending operators down to the innermost barrier and removes it. -/
def closeGroup (values : List Float) : List Pending → EvalM (List Float × List Pending)
  | .operator top :: rest => do
    let vs ← applyTop top values
    closeGroup vs rest
  | .barrier :: rest => pure (values, rest)
  | [] => throw .stuck

/-- At the end: applies all pending operators. -/
def drain (values : List Float) : List Pending → EvalM (List Float)
  | .operator top :: rest => do
    let vs ← applyTop top values
    drain vs rest
  | .barrier :: _ => throw .stuck
  | [] => pure values

/-- The machine after one token. -/
def step (lookup : Lookup) (m : Machine) : Token → EvalM Machine
  | .number v _ => pure ⟨v :: m.values, m.pending⟩
  | .var name => do
    let v ← ask lookup name
    pure ⟨v :: m.values, m.pending⟩
  | .operator o => do
    let (vs, ps) ← settle o m.values m.pending
    pure ⟨vs, .operator o :: ps⟩
  | .openParen => pure ⟨m.values, .barrier :: m.pending⟩
  | .closeParen => do
    let (vs, ps) ← closeGroup m.values m.pending
    pure ⟨vs, ps⟩

/-- The machine after some tokens. -/
def feed (lookup : Lookup) (m : Machine) : List Token → EvalM Machine
  | [] => pure m
  | t :: ts => do
    let m' ← m.step lookup t
    m'.feed lookup ts

/-- The machine with no values and nothing pending. -/
def empty : Machine := ⟨[], []⟩

end Machine

/-- Evaluates a formula with the machine: the one value left after the end. -/
def Formula.evaluate (f : Formula) (lookup : Lookup) : EvalM Float := do
  let m ← Machine.empty.feed lookup f.tokens
  match ← Machine.drain m.values m.pending with
  | [v] => pure v
  | _ => throw .stuck

end Formulas
