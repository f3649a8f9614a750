import Formulas.Evaluation.Basic
import Formulas.Decimal.Plain
/-!
# Bindings

A table of named values for evaluating formulas. Names are kept in byte order, each once, and a
new value for a name replaces the old one. `define` admits only a valid variable name (an ASCII
letter, then ASCII letters and digits) with a finite value; `extend` inserts without checks.
-/

namespace Formulas

/-- A name with its value. -/
structure Binding where
  name : String
  value : Float

/-- Why a binding, or a line of a bindings text, was refused. -/
inductive BindingError where
  /-- The text has no `=`. -/
  | missingEquals (text : String)
  /-- The name is no variable name. -/
  | invalidName (name : String)
  /-- The value text is no finite number. -/
  | invalidValue (name value : String)
  /-- A line of a bindings text was refused; lines count from one. -/
  | line (number : Nat) (source : BindingError)
  deriving DecidableEq, Repr

namespace BindingError

/-- The name of the error's kind. -/
def tag : BindingError → String
  | missingEquals _ => "MissingEquals"
  | invalidName _ => "InvalidName"
  | invalidValue _ _ => "InvalidValue"
  | line _ _ => "Line"

/-- The statement of the error. -/
def message : BindingError → String
  | missingEquals text => "expected `name=value`, got `" ++ text ++ "`"
  | invalidName name => "`" ++ name ++ "` is not a valid variable name"
  | invalidValue name value => "`" ++ value ++ "` is not a finite number for `" ++ name ++ "`"
  | line number source => "line " ++ toString number ++ ": " ++ source.message

/-- How to mend the error, where there is advice. -/
def help? : BindingError → Option String
  | invalidName _ => some "variable names are a letter followed by letters or digits"
  | _ => none

/-- The diagnostic code of the error. -/
def code : BindingError → String
  | missingEquals _ => "formula::bindings::syntax"
  | invalidName _ => "formula::bindings::name"
  | invalidValue _ _ => "formula::bindings::value"
  | line _ _ => "formula::bindings::file"

end BindingError

/-- A variable name is an ASCII letter followed by ASCII letters and digits. -/
def isVariableName (s : String) : Bool :=
  match s.toList with
  | c :: rest => c.isAlpha && rest.all fun d => d.isAlpha || d.isDigit
  | [] => false

/-- Named values, sorted by name with each name once. -/
structure Bindings where
  /-- The entries in byte order of their names. -/
  entries : List (String × Float)

namespace Bindings

/-- The table without entries. -/
def empty : Bindings := ⟨[]⟩

/-- Puts an entry into a sorted list, in its place, replacing one of the same name. -/
def insertEntry (name : String) (v : Float) : List (String × Float) → List (String × Float)
  | [] => [(name, v)]
  | (k, w) :: rest =>
    if name < k then (name, v) :: (k, w) :: rest
    else if name = k then (name, v) :: rest
    else (k, w) :: insertEntry name v rest

/-- The value of a name. -/
def get? (b : Bindings) (name : String) : Option Float :=
  (b.entries.find? (·.1 == name)).map (·.2)

/-- The table as a lookup for evaluation. -/
def lookup (b : Bindings) : Lookup := b.get?

/-- Binds a name without checks, replacing any earlier value. -/
def insert (b : Bindings) (name : String) (v : Float) : Bindings :=
  ⟨insertEntry name v b.entries⟩

/-- Binds a valid name to a finite value, replacing any earlier value. -/
def define (b : Bindings) (name : String) (v : Float) : Except BindingError Bindings :=
  if !isVariableName name then .error (.invalidName name)
  else if !Decimal.isFiniteValue v then .error (.invalidValue name (Decimal.floatText v))
  else .ok (b.insert name v)

/-- Binds each of some bindings in turn, without checks; a later one wins. -/
def extend (b : Bindings) (bs : List Binding) : Bindings :=
  bs.foldl (fun acc x => acc.insert x.name x.value) b

/-- The number of names bound. -/
def size (b : Bindings) : Nat := b.entries.length

/-- Whether no name is bound. -/
def isEmpty (b : Bindings) : Bool := b.entries.isEmpty

end Bindings

end Formulas
