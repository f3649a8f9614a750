import Formulas.CommandLine.Help
import Formulas.Bindings.Read
/-!
# Command-line arguments

`formulas [-v]... <COMMAND>` with the commands `tokenize`, `check` and `eval`, each taking a
formula as its one positional argument or `--file <FILE>`, and for `eval` also `--var NAME=VALUE`
(any number of times) and `--vars <FILE>` (once). `-v` may stand anywhere; `-h`/`--help` shows the
help page of where it stands and `-V`/`--version` the version, both at the moment they are met;
`help [COMMAND]` shows a page too. After `--` every argument is positional.

Arguments are read from left to right. An option's value is the next argument, or written
`--name=value`; a `--var` value is read as a binding on the spot. An option whose value is still
missing when a flag, `--` or the end comes is refused. At the end the formula and `--file` may not
both be given, nor both be missing.
-/

namespace Formulas.CommandLine

/-- Why the arguments were refused. -/
inductive UsageError where
  | missingCommand
  | unknownCommand (name : String)
  | unexpectedArgument (arg : String)
  /-- A flag that takes no value was written with `=`. -/
  | unexpectedValue (flag : String)
  | missingValue (flag : String)
  | repeatedOption (flag : String)
  | emptyValue (flag : String)
  | invalidBinding (error : BindingError)
  /-- Both a formula and `--file` were given. -/
  | conflictingInputs
  /-- Neither a formula nor `--file` was given. -/
  | missingInput
  deriving Repr

/-- A description of a usage error, for the error stream. -/
def UsageError.message : UsageError → String
  | missingCommand => "a command is required"
  | unknownCommand name => "unrecognized subcommand '" ++ name ++ "'"
  | unexpectedArgument arg => "unexpected argument '" ++ arg ++ "' found"
  | unexpectedValue flag => "unexpected value for '" ++ flag ++ "'"
  | missingValue flag => "a value is required for '" ++ flag ++ "' but none was supplied"
  | repeatedOption flag => "the argument '" ++ flag ++ "' cannot be used multiple times"
  | emptyValue flag => "a value is required for '" ++ flag ++ "'"
  | invalidBinding e => "invalid value for '--var <NAME=VALUE>': " ++ e.message
  | conflictingInputs => "the argument '[FORMULA]' cannot be used with '--file <FILE>'"
  | missingInput => "the following required arguments were not provided: [FORMULA]"

/-- A command run with its inputs. -/
structure Invocation where
  command : Command
  /-- The formula given as an argument. -/
  formula : Option String
  /-- The file to read the formula from, when one was named. -/
  file : Option String
  /-- The `--var` bindings, in order. -/
  vars : List Binding
  /-- The bindings file, when one was named. -/
  varsFile : Option String

/-- What the arguments ask for. -/
inductive Request where
  | help (page : HelpPage)
  | version
  | invoke (inv : Invocation)

/-- A reason to stop reading arguments: a refusal, or a request answered at once. -/
inductive Halt where
  | refuse (e : UsageError)
  | answer (r : Request)

/-- The options that take a value. -/
inductive ValueOption where
  | file
  | var
  | vars
  deriving DecidableEq, Repr

/-- The flag that writes an option. -/
def ValueOption.flag : ValueOption → String
  | file => "--file"
  | var => "--var"
  | vars => "--vars"

/-- What the arguments of a command said so far. -/
structure Scan where
  formula : Option String := none
  file : Option String := none
  vars : List Binding := []
  varsFile : Option String := none
  /-- The option whose value the next argument is. -/
  awaiting : Option ValueOption := none
  /-- Whether `--` was met. -/
  trailing : Bool := false

/-- Splits `--name=value` after the dashes into the name and the value written with it. -/
def splitLong (body : List Char) : String × Option String :=
  match body.dropWhile (· ≠ '=') with
  | [] => (String.ofList body, none)
  | _ :: value => (String.ofList (body.takeWhile (· ≠ '=')), some (String.ofList value))

namespace Scan

/-- A positional argument: the formula, of which there is one. -/
def positional (s : Scan) (a : String) : Except Halt Scan :=
  match s.formula with
  | none => .ok { s with formula := some a }
  | some _ => .error (.refuse (.unexpectedArgument a))

/-- Gives an option its value. A file name may not be empty; a binding must read. -/
def give (s : Scan) (o : ValueOption) (v : String) : Except Halt Scan :=
  let s := { s with awaiting := none }
  match o with
  | .file =>
    if v.isEmpty then .error (.refuse (.emptyValue o.flag))
    else .ok { s with file := some v }
  | .vars =>
    if v.isEmpty then .error (.refuse (.emptyValue o.flag))
    else .ok { s with varsFile := some v }
  | .var =>
    match Binding.read v with
    | .ok b => .ok { s with vars := s.vars ++ [b] }
    | .error e => .error (.refuse (.invalidBinding e))

/-- Meets an option's flag: `--file` and `--vars` may be given once; the value is the one written
with the flag, or else the next argument. -/
def start (s : Scan) (o : ValueOption) (attached : Option String) : Except Halt Scan :=
  let repeated := match o with
    | .file => s.file.isSome
    | .vars => s.varsFile.isSome
    | .var => false
  if repeated then .error (.refuse (.repeatedOption o.flag))
  else match attached with
    | some v => s.give o v
    | none => .ok { s with awaiting := some o }

/-- The options a command takes, by their long names. -/
def optionNamed? (c : Command) : String → Option ValueOption
  | "file" => some .file
  | "var" => if c = .eval then some .var else none
  | "vars" => if c = .eval then some .vars else none
  | _ => none

/-- A long flag `--name` or `--name=value` of a command. -/
def long (c : Command) (s : Scan) (name : String) (attached : Option String) :
    Except Halt Scan :=
  if name = "help" ∨ name = "verbose" then
    match attached with
    | some _ => .error (.refuse (.unexpectedValue ("--" ++ name)))
    | none => if name = "help" then .error (.answer (.help (.command c))) else .ok s
  else match optionNamed? c name with
    | some o => s.start o attached
    | none => .error (.refuse (.unexpectedArgument ("--" ++ name)))

/-- A cluster of short flags `-abc` of a command, letter by letter. -/
def shorts (c : Command) (s : Scan) : List Char → Except Halt Scan
  | [] => .ok s
  | 'h' :: _ => .error (.answer (.help (.command c)))
  | 'v' :: rest => shorts c s rest
  | x :: _ => .error (.refuse (.unexpectedArgument ("-" ++ String.singleton x)))

/-- Whether an argument is a flag or `--` rather than a value: it starts with `-` and has more. -/
def isFlagLike (a : String) : Bool :=
  match a.toList with
  | '-' :: _ :: _ => true
  | _ => false

/-- Reads one argument of a command. While an option waits for its value, the argument is that
value, unless it is a flag or `--`, which leaves the option without one. -/
def step (c : Command) (s : Scan) (a : String) : Except Halt Scan :=
  match s.awaiting with
  | some o =>
    if isFlagLike a then .error (.refuse (.missingValue o.flag)) else s.give o a
  | none =>
    if s.trailing then s.positional a
    else if a = "--" then .ok { s with trailing := true }
    else match a.toList with
      | '-' :: '-' :: body =>
        let (name, attached) := splitLong body
        long c s name attached
      | '-' :: x :: rest => shorts c s (x :: rest)
      | _ => s.positional a

/-- The end of a command's arguments. No option may still wait for its value; the formula and
`--file` exclude each other, and one of them is needed. -/
def finish (c : Command) (s : Scan) : Except UsageError Invocation :=
  match s.awaiting with
  | some o => .error (.missingValue o.flag)
  | none =>
    if s.formula.isSome ∧ s.file.isSome then .error .conflictingInputs
    else if s.formula.isNone ∧ s.file.isNone then .error .missingInput
    else .ok ⟨c, s.formula, s.file, s.vars, s.varsFile⟩

/-- Reads a command's arguments. -/
def run (c : Command) (s : Scan) : List String → Except Halt Scan
  | [] => .ok s
  | a :: rest => do
    let s' ← s.step c a
    run c s' rest

end Scan

/-- The arguments after `help`: nothing, or the name of one command, `help` included. -/
def helpRequest : List String → Except UsageError Request
  | [] => .ok (.help .program)
  | [name] =>
    if name = "help" then .ok (.help .helpCommand)
    else match Command.ofName? name with
      | some c => .ok (.help (.command c))
      | none => .error (.unknownCommand name)
  | name :: extra :: _ =>
    if name = "help" ∨ (Command.ofName? name).isSome then .error (.unknownCommand extra)
    else .error (.unknownCommand name)

/-- The arguments of a command, read to the end. -/
def commandRequest (c : Command) (args : List String) : Except UsageError Request :=
  match Scan.run c {} args with
  | .error (.refuse e) => .error e
  | .error (.answer r) => .ok r
  | .ok s => (Scan.finish c s).map .invoke

/-- A cluster of short flags before the command. -/
def topShorts : List Char → Option (Except UsageError Request)
  | [] => none
  | 'h' :: _ => some (.ok (.help .program))
  | 'V' :: _ => some (.ok .version)
  | 'v' :: rest => topShorts rest
  | x :: _ => some (.error (.unexpectedArgument ("-" ++ String.singleton x)))

/-- Reads the arguments before the command, then the command's own. -/
def readArgs (trailing : Bool) : List String → Except UsageError Request
  | [] => .error .missingCommand
  | a :: rest =>
    if trailing then .error (.unexpectedArgument a)
    else if a = "help" then helpRequest rest
    else match Command.ofName? a with
      | some c => commandRequest c rest
      | none =>
        if a = "--" then readArgs true rest
        else match a.toList with
          | '-' :: '-' :: body =>
            match splitLong body with
            | ("help", none) => .ok (.help .program)
            | ("version", none) => .ok .version
            | ("verbose", none) => readArgs false rest
            | _ => .error (.unexpectedArgument a)
          | '-' :: x :: more =>
            match topShorts (x :: more) with
            | some r => r
            | none => readArgs false rest
          | _ => .error (.unknownCommand a)

/-- What a command line asks for. -/
def Request.ofArgs (args : List String) : Except UsageError Request := readArgs false args

end Formulas.CommandLine
