import Formulas.Text.Blank
import Formulas.Decimal.Basic
import Formulas.Decimal.Read
import Formulas.Decimal.Binary
import Formulas.Decimal.Shortest
import Formulas.Decimal.Plain
import Formulas.Operator
import Formulas.Lexeme
import Formulas.Lexeme.Lexer
import Formulas.Formula.Basic
import Formulas.Formula.Error
import Formulas.Formula.Parse
import Formulas.Evaluation.Basic
import Formulas.Evaluation.Machine
import Formulas.Evaluation.Tree
import Formulas.Bindings.Basic
import Formulas.Bindings.Read
import Formulas.CommandLine.Help
import Formulas.CommandLine.Args
import Formulas.CommandLine.Run
import Formulas.Main
import Formulas.Proofs.VariableNames
import Formulas.Proofs.Grammar
import Formulas.Proofs.Checker
import Formulas.Proofs.Precedence
import Formulas.Proofs.Stacks
import Formulas.Proofs.Doubles
import Formulas.Proofs.Lexing
import Formulas.Proofs.Reprint
import Formulas.Proofs.Munch
import Formulas.Proofs.BindingTable
import Formulas.Proofs.EvalCommand
import Formulas.Proofs.ErrorLocation
import Formulas.Proofs.Spans
import Formulas.Proofs.Lookups
import Formulas.Proofs.BindingsText
import Formulas.Proofs.Progress
import Formulas.Proofs.Completion
