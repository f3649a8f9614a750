import Formulas.Proofs.BindingTable
import Formulas.Proofs.Stacks
import Formulas.CommandLine.Run
/-!
# The `eval` command

`eval` runs in stages and stops at the first that fails: the syntax check of the formula (status
65), the bindings file, when one is named (status 1, for a file that cannot be read or that is no
bindings text), and the evaluation (status 70). A run that fails prints nothing; one that does not
prints the value and a line feed. The `--var` bindings are put into the table after the file's, so
for each name the last `--var` binding of it wins, and else the last line of the file that binds
it.

What the lines of a bindings text state is `LinesBind`, read line by line; reading the text
succeeds exactly when its lines state some bindings, and the table is then those bindings put in
one after another (`readLines_eq_ok_iff`). Evaluating a formula never gets stuck, since the machine
evaluates as a parse tree does and a tree has no stuck state.

Main statement: `run_eval_outcome`.
-/

namespace Formulas

/-! ## What a bindings text states -/

namespace Bindings

/-- `LinesBind ls bs`: the lines `ls` state the bindings `bs`, in order. A line whose content is
empty states none, and any other line the binding its content reads as. -/
inductive LinesBind : List (List Char) → List Binding → Prop
  | nil : LinesBind [] []
  | skip {l : List Char} {ls : List (List Char)} {bs : List Binding} :
      (content l).isEmpty = true → LinesBind ls bs → LinesBind (l :: ls) bs
  | bind {l : List Char} {ls : List (List Char)} {x : Binding} {bs : List Binding} :
      (content l).isEmpty = false → Binding.read (String.ofList (content l)) = .ok x →
      LinesBind ls bs → LinesBind (l :: ls) (x :: bs)

theorem readLines_of_linesBind {ls : List (List Char)} {bs : List Binding} (h : LinesBind ls bs)
    (acc : Bindings) (n : Nat) : readLines acc n ls = .ok (acc.extend bs) := by
  induction h generalizing acc n with
  | nil => rfl
  | skip hc _ ih =>
    simp only [readLines, hc, if_true]
    exact ih acc (n + 1)
  | @bind l ls x bs hc hx _ ih =>
    simp only [readLines, hc, Bool.false_eq_true, if_false, hx]
    exact ih _ (n + 1)

theorem linesBind_of_readLines {acc b : Bindings} {n : Nat} {ls : List (List Char)}
    (h : readLines acc n ls = .ok b) : ∃ bs, LinesBind ls bs ∧ b = acc.extend bs := by
  induction ls generalizing acc n with
  | nil =>
    simp only [readLines, Except.ok.injEq] at h
    exact ⟨[], .nil, h.symm⟩
  | cons l ls ih =>
    simp only [readLines] at h
    cases hc : (content l).isEmpty
    · simp only [hc, Bool.false_eq_true, if_false] at h
      cases hx : Binding.read (String.ofList (content l)) with
      | error e =>
        rw [hx] at h
        cases h
      | ok x =>
        rw [hx] at h
        obtain ⟨bs, hbs, rfl⟩ := ih h
        exact ⟨x :: bs, .bind hc hx hbs, rfl⟩
    · simp only [hc, if_true] at h
      obtain ⟨bs, hbs, rfl⟩ := ih h
      exact ⟨bs, .skip hc hbs, rfl⟩

/-- Reading lines into a table succeeds exactly when the lines state some bindings; the table is
then those bindings put in, in order. -/
theorem readLines_eq_ok_iff {acc b : Bindings} {n : Nat} {ls : List (List Char)} :
    readLines acc n ls = .ok b ↔ ∃ bs, LinesBind ls bs ∧ b = acc.extend bs := by
  constructor
  · exact linesBind_of_readLines
  · rintro ⟨bs, hbs, rfl⟩
    exact readLines_of_linesBind hbs acc n

end Bindings

/-! ## Evaluation never gets stuck -/

/-- A tree evaluates without getting stuck: its errors are an unknown name or a zero divisor. -/
theorem Expr.eval_safe (lookup : Lookup) (e : Expr) : (e.eval lookup).Safe (fun _ => True) := by
  induction e with
  | number v literal => exact EvalM.Safe.pure' trivial
  | var name => exact ask_safe lookup name
  | group e ih => exact ih
  | binary o lhs rhs ihl ihr =>
    exact ihl.bind' fun a _ => ihr.bind' fun b _ => perform_safe o a b

/-- Evaluating a formula never gets stuck. -/
theorem Formula.evaluate_ne_stuck {s : String} {f : Formula} (h : Formula.parse s = .ok f)
    (lookup : Lookup) : ((f.evaluate lookup).run').1 ≠ .error .stuck := by
  obtain ⟨e, he, ht⟩ := (Formula.derives_of_parse h).exists_parseTree
  rw [Formula.evaluate_eq_eval he ht lookup]
  exact (e.eval_safe lookup).run_ne_stuck #[]

/-! ## The stages of `eval` -/

namespace CommandLine

/-- A named bindings file that cannot be read, or whose text is no bindings text. -/
def VarsRefused (varsFile : Option String) (read : Reader) : Prop :=
  ∃ path, varsFile = some path ∧
    (read path = none ∨ ∃ text e, read path = some text ∧ Bindings.read text = .error e)

/-- The lines of the bindings file state `bs`, in order; with no bindings file, `bs` is empty. -/
def VarsBind (varsFile : Option String) (read : Reader) (bs : List Binding) : Prop :=
  match varsFile with
  | none => bs = []
  | some path => ∃ text, read path = some text ∧ Bindings.LinesBind (Bindings.lines text.toList) bs

namespace Invocation

variable (text : String) (vars : List Binding) (varsFile : Option String) (read : Reader)

theorem checked_of_error {e : SyntaxError} (h : Formula.parse text = .error e) :
    checked text = .error (.failure 65 e.fault.message) := by
  simp [checked, h]

theorem checked_of_ok {f : Formula} (h : Formula.parse text = .ok f) : checked text = .ok f := by
  simp [checked, h]

/-- A bindings file refused ends the run with status 1, having printed nothing. -/
theorem table_of_varsRefused (h : VarsRefused varsFile read) :
    ∃ o, table ⟨.eval, some text, none, vars, varsFile⟩ read = .error o ∧ o.stdout = "" ∧
      o.status = 1 := by
  obtain ⟨path, rfl, hread | ⟨content, e, hread, hparse⟩⟩ := h
  · simp [table, hread, Outcome.failure]
  · simp [table, hread, hparse, Outcome.failure]

/-- A bindings file whose lines state `bs` gives the table of `bs` and then `vars`. -/
theorem table_of_varsBind {bs : List Binding} (h : VarsBind varsFile read bs) :
    table ⟨.eval, some text, none, vars, varsFile⟩ read =
      .ok ((Bindings.empty.extend bs).extend vars) := by
  cases varsFile with
  | none =>
    have hbs : bs = [] := h
    subst hbs
    rfl
  | some path =>
    obtain ⟨content, hread, hlines⟩ := h
    have hparse : Bindings.read content = .ok (Bindings.empty.extend bs) :=
      Bindings.readLines_of_linesBind hlines _ 1
    simp [table, hread, hparse]

/-- The table of the file's bindings and then the `--var` bindings values each name by its last
`--var` binding, else by its last binding in the file. -/
theorem lookup_extend_extend (bs : List Binding) :
    ((Bindings.empty.extend bs).extend vars).lookup =
      fun m => (Bindings.lastValue? vars m).or (Bindings.lastValue? bs m) := by
  funext m
  simp only [Bindings.lookup, Bindings.get?_extend]
  rw [show Bindings.empty.get? m = none from rfl, Option.or_none]

end Invocation

open Invocation in
/-- `eval` of a formula text given as its argument, with `--var` bindings `vars` in command-line
order and maybe a bindings file. A syntax error ends the run with status 65, whatever the file.
Otherwise a bindings file that cannot be read or is no bindings text ends it with status 1.
Otherwise the formula is evaluated with each name valued by its last `--var` binding, else by the
last line of the file that binds it, else by nothing; the run prints the value and a line feed
with status 0, or ends with status 70 at an evaluation error. A run that fails prints nothing. -/
theorem run_eval_outcome (text : String) (vars : List Binding) (varsFile : Option String)
    (read : Reader) :
    ((∃ e, Formula.parse text = .error e) →
        (run ⟨.eval, some text, none, vars, varsFile⟩ read).stdout = "" ∧
          (run ⟨.eval, some text, none, vars, varsFile⟩ read).status = 65) ∧
      (∀ f, Formula.parse text = .ok f → VarsRefused varsFile read →
        (run ⟨.eval, some text, none, vars, varsFile⟩ read).stdout = "" ∧
          (run ⟨.eval, some text, none, vars, varsFile⟩ read).status = 1) ∧
      ∀ f bs, Formula.parse text = .ok f → VarsBind varsFile read bs →
        (∀ v, ((f.evaluate fun m =>
            (Bindings.lastValue? vars m).or (Bindings.lastValue? bs m)).run').1 = .ok v →
          (run ⟨.eval, some text, none, vars, varsFile⟩ read).stdout =
              Decimal.floatText v ++ "\n" ∧
            (run ⟨.eval, some text, none, vars, varsFile⟩ read).status = 0) ∧
        ∀ e, ((f.evaluate fun m =>
            (Bindings.lastValue? vars m).or (Bindings.lastValue? bs m)).run').1 = .error e →
          (run ⟨.eval, some text, none, vars, varsFile⟩ read).stdout = "" ∧
            (run ⟨.eval, some text, none, vars, varsFile⟩ read).status = 70 := by
  refine ⟨?_, ?_, ?_⟩
  · -- the syntax check fails first
    rintro ⟨e, he⟩
    simp only [run, source, checked_of_error text he, bind, Except.bind]
    exact ⟨rfl, rfl⟩
  · -- the bindings file is refused
    intro f hf hrefused
    obtain ⟨o, ht, hout, hstatus⟩ := table_of_varsRefused text vars varsFile read hrefused
    simp only [run, source, checked_of_ok text hf, ht, bind, Except.bind]
    exact ⟨hout, hstatus⟩
  · -- the evaluation decides
    intro f bs hf hbind
    have ht := table_of_varsBind text vars varsFile read hbind
    have hlookup := lookup_extend_extend vars bs
    refine ⟨fun v hv => ?_, fun e he => ?_⟩
    · rw [← hlookup] at hv
      simp only [run, source, checked_of_ok text hf, ht, bind, Except.bind, hv, pure,
        Except.pure]
      exact ⟨by simp [Outcome.success], rfl⟩
    · have hstuck := Formula.evaluate_ne_stuck hf
        ((Bindings.empty.extend bs).extend vars).lookup
      rw [← hlookup] at he
      rw [he] at hstuck
      simp only [run, source, checked_of_ok text hf, ht, bind, Except.bind, he]
      cases e with
      | undefinedVariable name => exact ⟨rfl, rfl⟩
      | divisionByZero => exact ⟨rfl, rfl⟩
      | stuck => exact absurd rfl hstuck

open Invocation in
/-- The three ways `eval` fails, each at its own stage. `a +` ends with an operator, so its run
ends with status 65 even with a bindings file that cannot be read. `a / b` with such a file ends
with status 1. `a / b` with `--var a=6` and a bindings file whose one line is `b = 0` takes `a`
from the argument and `b` from the file, and the division by zero ends it with status 70. None of
the three prints anything. -/
theorem run_eval_outcome_failure_statuses :
    Formula.parse "a +" = .error ⟨.danglingEnd, 2, 1⟩ ∧
      (run ⟨.eval, some "a +", none, [], some "cells"⟩ (fun _ => none)).stdout = "" ∧
      (run ⟨.eval, some "a +", none, [], some "cells"⟩ (fun _ => none)).status = 65 ∧
      Formula.parse "a / b" = .ok ⟨[.var "a", .operator .slash, .var "b"]⟩ ∧
      VarsRefused (some "cells") (fun _ => none) ∧
      (run ⟨.eval, some "a / b", none, [⟨"a", Decimal.toFloat ⟨6, 0⟩⟩], some "cells"⟩
          (fun _ => none)).stdout = "" ∧
      (run ⟨.eval, some "a / b", none, [⟨"a", Decimal.toFloat ⟨6, 0⟩⟩], some "cells"⟩
          (fun _ => none)).status = 1 ∧
      VarsBind (some "cells") (fun _ => some "b = 0\n") [⟨"b", Decimal.toFloat ⟨0, 0⟩⟩] ∧
      ((Formula.evaluate ⟨[.var "a", .operator .slash, .var "b"]⟩ fun m =>
          (Bindings.lastValue? [⟨"a", Decimal.toFloat ⟨6, 0⟩⟩] m).or
            (Bindings.lastValue? [⟨"b", Decimal.toFloat ⟨0, 0⟩⟩] m)).run').1 =
        .error .divisionByZero ∧
      (run ⟨.eval, some "a / b", none, [⟨"a", Decimal.toFloat ⟨6, 0⟩⟩], some "cells"⟩
          (fun _ => some "b = 0\n")).stdout = "" ∧
      (run ⟨.eval, some "a / b", none, [⟨"a", Decimal.toFloat ⟨6, 0⟩⟩], some "cells"⟩
          (fun _ => some "b = 0\n")).status = 70 := by
  have hdangling : Formula.parse "a +" = .error ⟨.danglingEnd, 2, 1⟩ := by
    rw [Formula.parse, lex_eq_lexWithin]
    rfl
  have hparse : Formula.parse "a / b" = .ok ⟨[.var "a", .operator .slash, .var "b"]⟩ := by
    rw [Formula.parse, lex_eq_lexWithin]
    rfl
  have hmissing : VarsRefused (some "cells") (fun _ => none) := ⟨"cells", rfl, .inl rfl⟩
  have hlines : Bindings.lines "b = 0\n".toList = ["b = 0".toList] := by
    rw [@Bindings.lines_of_lineFeed _ [] rfl, Bindings.lines_nil]
    rfl
  have hbind : VarsBind (some "cells") (fun _ => some "b = 0\n") [⟨"b", Decimal.toFloat ⟨0, 0⟩⟩] := by
    refine ⟨"b = 0\n", rfl, ?_⟩
    rw [hlines]
    exact .bind (by decide) rfl .nil
  have heval : ((Formula.evaluate ⟨[.var "a", .operator .slash, .var "b"]⟩ fun m =>
      (Bindings.lastValue? [⟨"a", Decimal.toFloat ⟨6, 0⟩⟩] m).or
        (Bindings.lastValue? [⟨"b", Decimal.toFloat ⟨0, 0⟩⟩] m)).run').1 =
      .error .divisionByZero := rfl
  have hsyntax := (run_eval_outcome "a +" [] (some "cells") (fun _ => none)).1 ⟨_, hdangling⟩
  have hrefused := (run_eval_outcome "a / b" [⟨"a", Decimal.toFloat ⟨6, 0⟩⟩] (some "cells")
    (fun _ => none)).2.1 _ hparse hmissing
  have hdivision := ((run_eval_outcome "a / b" [⟨"a", Decimal.toFloat ⟨6, 0⟩⟩] (some "cells")
    (fun _ => some "b = 0\n")).2.2 _ _ hparse hbind).2 _ heval
  exact ⟨hdangling, hsyntax.1, hsyntax.2, hparse, hmissing, hrefused.1, hrefused.2, hbind, heval,
    hdivision⟩

end CommandLine

end Formulas
