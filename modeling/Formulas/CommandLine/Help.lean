/-!
# Help pages

The command line's help pages. A page says what the command is for and how to call it, then lists
its sections; each section is a table of two columns, the right one starting two spaces after the
longest left entry of that section.
-/

namespace Formulas.CommandLine

/-- The commands that work on a formula. -/
inductive Command where
  | tokenize
  | check
  | eval
  deriving DecidableEq, Repr

namespace Command

/-- The name a command is called by. -/
def name : Command → String
  | tokenize => "tokenize"
  | check => "check"
  | eval => "eval"

/-- The command called by a name. -/
def ofName? : String → Option Command
  | "tokenize" => some tokenize
  | "check" => some check
  | "eval" => some eval
  | _ => none

/-- What a command does, in one line. -/
def about : Command → String
  | tokenize => "Print every token of the formula, one per line"
  | check => "Validate the formula and print it normalized"
  | eval => "Evaluate the formula"

end Command

/-- A page of help: for the program, for one command, or for `help` itself. -/
inductive HelpPage where
  | program
  | command (c : Command)
  | helpCommand
  deriving DecidableEq, Repr

/-- The lines of a two-column table. -/
def columns (rows : List (String × String)) : List String :=
  let width := rows.foldl (fun w r => max w r.1.length) 0 + 2
  rows.map fun (left, right) =>
    left ++ String.ofList (List.replicate (width - left.length) ' ') ++ right

/-- The text of a page: purpose, a blank line, the usage line, then each section after a blank
line, under its title. -/
def page (about usage : String) (sections : List (String × List (String × String))) : String :=
  let body := sections.map fun (title, rows) =>
    "\n" ++ title ++ ":\n" ++ String.join ((columns rows).map (· ++ "\n"))
  about ++ "\n\nUsage: " ++ usage ++ "\n" ++ String.join body

/-- The row of the verbosity flag, which every page with options shows. -/
def verboseRow : String × String :=
  ("  -v, --verbose...",
    "Increase log verbosity (-v info, -vv debug, -vvv trace); `RUST_LOG` wins when set")

/-- The row of the help flag. -/
def helpRow : String × String := ("  -h, --help", "Print help")

/-- What the `help` command does. -/
def helpAbout : String := "Print this message or the help of the given subcommand(s)"

/-- The rows of a command's options, in the order the page lists them. -/
def optionRows : Command → List (String × String)
  | .eval =>
    [("      --file <FILE>", "Read the formula from a file instead"), verboseRow,
      ("      --var <NAME=VALUE>", "Bind a variable, e.g. `--var x=3`. Overrides `--vars`"),
      ("      --vars <FILE>", "File of `name = value` lines"), helpRow]
  | _ => [("      --file <FILE>", "Read the formula from a file instead"), verboseRow, helpRow]

/-- The text of a help page. -/
def HelpPage.text : HelpPage → String
  | .program =>
    page "Check and evaluate infix formulas" "formulas [OPTIONS] <COMMAND>"
      [("Commands", [Command.tokenize, .check, .eval].map (fun c => ("  " ++ c.name, c.about)) ++
          [("  help", helpAbout)]),
        ("Options", [verboseRow, helpRow, ("  -V, --version", "Print version")])]
  | .command c =>
    page c.about ("formulas " ++ c.name ++ " [OPTIONS] [FORMULA]")
      [("Arguments", [("  [FORMULA]", "Formula text")]), ("Options", optionRows c)]
  | .helpCommand =>
    page helpAbout "formulas help [COMMAND]..."
      [("Arguments", [("  [COMMAND]...", "Print help for the subcommand(s)")])]

/-- The version line. -/
def versionText : String := "formulas 0.1.0\n"

end Formulas.CommandLine
