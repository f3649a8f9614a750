import Formulas.Operator
/-!
# Evaluation

Evaluating a formula asks a lookup for the value of every variable occurrence, once each time the
name occurs, and fails at the first name the lookup does not know or at the first division by a
zero divisor of either sign. Evaluation keeps the record of the names asked for, in order, so the
order of lookups is part of its result; after a failure nothing more is asked.
-/

namespace Formulas

/-- Why an evaluation failed. -/
inductive EvalError where
  /-- The lookup does not know this name. -/
  | undefinedVariable (name : String)
  /-- A divisor was zero. -/
  | divisionByZero
  /-- Stands for the evaluator's `unreachable!` arms, which panic: the machine's stacks took a
  shape that no checked formula produces. It is no evaluation error and has no diagnostic. -/
  | stuck
  deriving DecidableEq, Repr

namespace EvalError

/-- The name of the error's kind; a panic has none. -/
def tag? : EvalError → Option String
  | undefinedVariable _ => some "UndefinedVariable"
  | divisionByZero => some "DivisionByZero"
  | stuck => none

/-- The statement of the error. A panic says only what every `unreachable!` panic begins with. -/
def message : EvalError → String
  | undefinedVariable name => "undefined variable `" ++ name ++ "`"
  | divisionByZero => "division by zero"
  | stuck => "internal error: entered unreachable code"

/-- How to mend the error, where there is advice. -/
def help? : EvalError → Option String
  | undefinedVariable _ => some "bind the variable before evaluating"
  | _ => none

/-- The diagnostic code of the error; a panic has none. -/
def code? : EvalError → Option String
  | undefinedVariable _ => some "formula::eval::undefined_variable"
  | divisionByZero => some "formula::eval::division_by_zero"
  | stuck => none

end EvalError

/-- What a lookup knows: the value of some names. -/
abbrev Lookup := String → Option Float

/-- An evaluation step: it may fail, and it adds to the record of names asked for. -/
abbrev EvalM := ExceptT EvalError (StateM (Array String))

/-- Asks the lookup for a name, recording the question first. -/
def ask (lookup : Lookup) (name : String) : EvalM Float := do
  modify (·.push name)
  match lookup name with
  | some v => pure v
  | none => throw (.undefinedVariable name)

/-- Applies an operator to two values; a division by zero or by minus zero fails. -/
def Operator.perform (o : Operator) (a b : Float) : EvalM Float :=
  if o == .slash && b == 0.0 then throw .divisionByZero else pure (o.apply a b)

/-- Runs an evaluation with an empty record: the outcome and the names asked for. -/
def EvalM.run' (m : EvalM Float) : Except EvalError Float × List String :=
  let (r, asked) := (ExceptT.run m).run #[]
  (r, asked.toList)

end Formulas
