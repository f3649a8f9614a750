import Formulas.Bindings.Basic
import Formulas.Decimal.Read
import Formulas.Text.Blank
/-!
# Reading bindings

A binding is written `name = value`: the text up to the first `=` is the name and the rest the
value, each without blanks at its ends; the name must be a variable name and the value a number
text that reads as a finite double. A bindings text holds one binding per line. Anything from a
`#` to the end of its line is a comment, lines blank after that are skipped, and the first line
refused stops the reading, with its number. When a name is bound twice, the later line wins.
-/

namespace Formulas

open Text

/-- Reads `name = value`. -/
def Binding.read (s : String) : Except BindingError Binding :=
  let cs := s.toList
  match cs.dropWhile (· ≠ '=') with
  | [] => .error (.missingEquals s)
  | _ :: valueChars =>
    let name := String.ofList (trimBlankList (cs.takeWhile (· ≠ '=')))
    let value := String.ofList (trimBlankList valueChars)
    if !isVariableName name then .error (.invalidName name)
    else match Decimal.readFloat? value with
      | some v => if Decimal.isFiniteValue v then .ok ⟨name, v⟩ else .error (.invalidValue name value)
      | none => .error (.invalidValue name value)

namespace Bindings

/-- A line without one carriage return at its end. -/
def dropReturn (line : List Char) : List Char :=
  if line.getLast? = some '\r' then line.dropLast else line

/-- The lines of a text: the pieces between line feeds, a carriage return right before a line
feed dropped with it. Text after the last line feed is a line when it is not empty. -/
def lines (cs : List Char) : List (List Char) :=
  match cs with
  | [] => []
  | c :: rest =>
    let line := (c :: rest).takeWhile (· ≠ '\n')
    match h : (c :: rest).dropWhile (· ≠ '\n') with
    | [] => [line]
    | _ :: after =>
      have : after.length < rest.length + 1 := by
        have := (List.dropWhile_suffix (· ≠ '\n') (l := c :: rest)).length_le
        rw [h] at this
        simp only [List.length_cons] at this
        omega
      dropReturn line :: lines after
termination_by cs.length

theorem lines_nil : lines [] = [] := by
  rw [lines]

/-- The first line runs up to the first line feed, and the lines after that feed follow it. -/
theorem lines_of_lineFeed {cs after : List Char} (h : cs.dropWhile (· ≠ '\n') = '\n' :: after) :
    lines cs = dropReturn (cs.takeWhile (· ≠ '\n')) :: lines after := by
  cases cs with
  | nil => simp at h
  | cons c rest =>
    rw [lines]
    -- the match on where the first line feed is: `h` rules out there being none
    split
    · next hnil => rw [h] at hnil; cases hnil
    · next nl after' hcons =>
      rw [h] at hcons
      cases hcons
      rfl

/-- What a line says: the text before its first `#`, without blanks at the ends. -/
def content (line : List Char) : List Char := trimBlankList (line.takeWhile (· ≠ '#'))

/-- Reads lines numbered from `n` into the table, stopping at the first line refused. -/
def readLines (acc : Bindings) (n : Nat) : List (List Char) → Except BindingError Bindings
  | [] => .ok acc
  | l :: ls =>
    let c := content l
    if c.isEmpty then readLines acc (n + 1) ls
    else match Binding.read (String.ofList c) with
      | .error e => .error (.line n e)
      | .ok b => readLines (acc.insert b.name b.value) (n + 1) ls

/-- Reads a bindings text into a fresh table. -/
def read (s : String) : Except BindingError Bindings := readLines empty 1 (lines s.toList)

end Bindings

end Formulas
