import Formulas.CommandLine.Args
import Formulas.Formula.Parse
import Formulas.Evaluation.Machine
/-!
# Running the command line

What a command line prints and the status it ends with, given the contents of the files it may
read. `tokenize` lists the lexemes and an end line; `check` prints the formula with single spaces
between its tokens and then its variables; `eval` prints the value. The statuses: 0 when all went
well, 2 for arguments refused, 1 for a file that cannot be read or a bindings file refused, 65 for
a formula with a syntax error, 70 for a failed evaluation.
-/

namespace Formulas.CommandLine

/-- What a run prints and how it ends. -/
structure Outcome where
  /-- The text on standard output. -/
  stdout : String
  /-- A description of a failure, for the error stream. -/
  diagnostic : String
  /-- The exit status. -/
  status : Nat

/-- Ends with a status and a description of the failure, having printed nothing. -/
def Outcome.failure (status : Nat) (diagnostic : String) : Outcome := ⟨"", diagnostic ++ "\n", status⟩

/-- Ends well, having printed some lines. -/
def Outcome.success (lines : List String) : Outcome := ⟨String.join (lines.map (· ++ "\n")), "", 0⟩

/-- Reads a file by name: its contents, or nothing when it cannot be read. -/
abbrev Reader := String → Option String

/-- The files a request may read. -/
def Request.paths : Request → List String
  | .invoke inv => inv.file.toList ++ inv.varsFile.toList
  | _ => []

namespace Invocation

/-- The formula text: the argument, or the contents of the file. -/
def source (inv : Invocation) (read : Reader) : Except Outcome String :=
  match inv.formula, inv.file with
  | some text, _ => .ok text
  | none, some path =>
    match read path with
    | some text => .ok text
    | none => .error (.failure 1 ("reading `" ++ path ++ "` failed"))
  | none, none => .error (.failure 1 "no formula given")

/-- The checked formula of a text, or the syntax error's status. -/
def checked (text : String) : Except Outcome Formula :=
  match Formula.parse text with
  | .ok f => .ok f
  | .error e => .error (.failure 65 e.fault.message)

/-- The bindings for `eval`: the bindings file, if named, then the `--var` bindings over it. -/
def table (inv : Invocation) (read : Reader) : Except Outcome Bindings :=
  match inv.varsFile with
  | none => .ok (Bindings.empty.extend inv.vars)
  | some path =>
    match read path with
    | none => .error (.failure 1 ("reading `" ++ path ++ "` failed"))
    | some text =>
      match Bindings.read text with
      | .ok b => .ok (b.extend inv.vars)
      | .error e => .error (.failure 1 ("invalid bindings in `" ++ path ++ "`: " ++ e.message))

/-- The lines `check` prints for a formula. -/
def checkLines (f : Formula) : List String :=
  let names := f.variableNames
  f.render :: (if names.isEmpty then [] else ["variables: " ++ ", ".intercalate names])

/-- Runs the command. -/
def run (inv : Invocation) (read : Reader) : Outcome :=
  let result : Except Outcome Outcome := do
    let text ← inv.source read
    match inv.command with
    | .tokenize => pure (.success ((lex text).map Lexeme.listing ++ [endOfListing]))
    | .check => pure (.success (checkLines (← checked text)))
    | .eval =>
      let f ← checked text
      let b ← inv.table read
      match ((f.evaluate b.lookup).run').1 with
      | .ok v => pure (.success [Decimal.floatText v])
      -- an `unreachable!` arm panics, and a process that panics exits with status 101
      | .error .stuck => pure (.failure 101 EvalError.stuck.message)
      | .error e => pure (.failure 70 e.message)
  match result with
  | .ok o => o
  | .error o => o

end Invocation

/-- Answers a request. -/
def Request.run (r : Request) (read : Reader) : Outcome :=
  match r with
  | .help p => ⟨p.text, "", 0⟩
  | .version => ⟨versionText, "", 0⟩
  | .invoke inv => inv.run read

/-- Runs a command line. -/
def execute (args : List String) (read : Reader) : Outcome :=
  match Request.ofArgs args with
  | .ok r => r.run read
  | .error e => .failure 2 ("error: " ++ e.message)

end Formulas.CommandLine
