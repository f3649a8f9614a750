import Mathlib.Tactic.SplitIfs
import Formulas.Proofs.Stacks
/-!
# Where a syntax error is reported

A text that is no formula is reported at the first point from which it can no longer become one.
Lexemes are a viable prefix when none is unrecognised and their tokens begin a sentence of the
flat grammar. The check stops at the first lexeme that ends the viable prefix and reports its
span. When every lexeme passes, the whole sequence is a viable prefix that is no sentence, and
the end checks report it at the last lexeme: unclosed parentheses first, as many as `(` outnumber
`)`, and otherwise an operator or `(` at the end. A text with no lexemes is reported at its end,
with an empty span.

A walk of the check can always be completed: after any tokens it accepts, an operand where one is
due and a `)` for each open group make a sentence. So tokens begin a sentence exactly when the
walk accepts them (`beginsSentence_iff_walk`).

Main statement: `parse_error_location`.
-/

namespace Formulas

/-- Lexemes that can begin a formula: none is unrecognised, and their tokens begin a sentence of
the flat grammar. -/
def ViablePrefix (ls : List Lexeme) : Prop :=
  (∀ l ∈ ls, l.kind ≠ .unrecognised) ∧ ∃ rest, Derives .expr (ls.filterMap Lexeme.token? ++ rest)

/-- The faults found at the end of the text rather than at a lexeme. -/
def SyntaxFault.atEnd : SyntaxFault → Bool
  | .emptyFormula | .unclosedParenthesis _ | .danglingEnd => true
  | _ => false

/-! ## Every walk can be completed -/

namespace Position

/-- At an operand, one `)` for each open group closes them all. -/
theorem walk_closeParens (d : Nat) :
    walk (.operand, d) (List.replicate d .closeParen) = some (.operand, 0) := by
  induction d with
  | zero => rfl
  | succ d ih =>
    simp only [List.replicate_succ, walk, next, Nat.add_sub_cancel]
    simpa using ih

/-- From any position and depth some tokens lead to an operand outside all groups. -/
theorem exists_completion (p : Position) (d : Nat) :
    ∃ rest, walk (p, d) rest = some (.operand, 0) := by
  by_cases hp : p = .operand
  · subst hp
    exact ⟨_, walk_closeParens d⟩
  · -- an operand is due first
    refine ⟨.var "x" :: List.replicate d .closeParen, ?_⟩
    simp [walk, next, hp, walk_closeParens]

/-- Tokens begin a sentence of the flat grammar exactly when the walk from the start accepts
them. -/
theorem beginsSentence_iff_walk (ts : List Token) :
    (∃ rest, Derives .expr (ts ++ rest)) ↔ (walk (.opening, 0) ts).isSome := by
  constructor
  · rintro ⟨rest, hd⟩
    have hw := (walk_eq_operand_iff (ts ++ rest)).mpr hd
    rw [walk_append] at hw
    cases h : walk (.opening, 0) ts with
    | none =>
      rw [h] at hw
      cases hw
    | some s => rfl
  · intro hw
    obtain ⟨⟨p, d⟩, hs⟩ := Option.isSome_iff_exists.mp hw
    obtain ⟨rest, hrest⟩ := exists_completion p d
    refine ⟨rest, (walk_eq_operand_iff _).mp ?_⟩
    rw [walk_append, hs]
    exact hrest

end Position

/-! ## How the check fails -/

namespace Checker

/-- A step fails only at an unrecognised lexeme, or at a token the grammar cannot continue
with. -/
theorem step_eq_error_cases {st : Checker} {l : Lexeme} {e : SyntaxError}
    (h : st.step l = .error e) :
    l.kind = .unrecognised ∨ ∃ t, l.token? = some t ∧ st.position.next st.depth t = none := by
  cases ht : l.token? with
  | none =>
    left
    have hk : ¬l.kind ≠ .unrecognised := fun hk => by
      simpa [ht] using (Lexeme.token?_isSome_iff l).mpr hk
    exact Classical.not_not.mp hk
  | some t =>
    right
    refine ⟨t, rfl, ?_⟩
    cases hn : st.position.next st.depth t with
    | none => rfl
    | some s =>
      have hok : st.step l = .ok ⟨s.1, s.2, t :: st.accepted⟩ :=
        step_eq_ok_iff.mpr ⟨t, ht, hn, rfl⟩
      rw [h] at hok
      cases hok

/-- A step reports its fault at the lexeme's span, and never a fault of the end. -/
theorem step_eq_error_span {st : Checker} {l : Lexeme} {e : SyntaxError}
    (h : st.step l = .error e) :
    e.offset = l.offset ∧ e.length = l.length ∧ e.fault.atEnd = false := by
  rcases st with ⟨position, depth, accepted⟩
  rcases l with ⟨kind, text, offset⟩
  -- every failing branch builds its error from the lexeme's own span
  cases kind with
  | unrecognised =>
    simp only [step] at h
    cases h
    exact ⟨rfl, rfl, rfl⟩
  | number v | name =>
    simp only [step] at h
    split_ifs at h
    cases h
    exact ⟨rfl, rfl, rfl⟩
  | operator o =>
    cases position <;> simp only [step, Except.error.injEq, reduceCtorEq] at h
    all_goals
      cases h
      exact ⟨rfl, rfl, rfl⟩
  | openParen =>
    simp only [step] at h
    split_ifs at h
    cases h
    exact ⟨rfl, rfl, rfl⟩
  | closeParen =>
    simp only [step] at h
    split_ifs at h
    · cases h
      exact ⟨rfl, rfl, rfl⟩
    · cases position <;> simp only [Except.error.injEq, reduceCtorEq] at h
      all_goals
        cases h
        exact ⟨rfl, rfl, rfl⟩

/-- A pass that fails stops at one lexeme: the lexemes before it pass, and it fails. -/
theorem run_eq_error {st : Checker} {ls : List Lexeme} {e : SyntaxError}
    (h : st.run ls = .error e) :
    ∃ pre l post st', ls = pre ++ l :: post ∧ st.run pre = .ok st' ∧ st'.step l = .error e := by
  induction ls generalizing st with
  | nil => cases h
  | cons l ls ih =>
    cases hs : st.step l with
    | error e' =>
      simp only [run, hs] at h
      cases h
      exact ⟨[], l, ls, st, rfl, rfl, hs⟩
    | ok st1 =>
      simp only [run, hs] at h
      obtain ⟨pre, l', post, st', rfl, hpre, hstep⟩ := ih h
      refine ⟨l :: pre, l', post, st', rfl, ?_, hstep⟩
      simp only [run, hs]
      exact hpre

/-- The end checks report at the last lexeme: unclosed groups first, then a missing operand. -/
theorem finish_eq_error {st : Checker} {last : Lexeme} {e : SyntaxError}
    (h : st.finish last = .error e) :
    e.offset = last.offset ∧ e.length = last.length ∧
      ((st.depth ≠ 0 ∧ e.fault = .unclosedParenthesis st.depth) ∨
        (st.depth = 0 ∧ st.position ≠ .operand ∧ e.fault = .danglingEnd)) := by
  unfold finish at h
  split_ifs at h with hd hp
  · cases h
    exact ⟨rfl, rfl, .inl ⟨hd, rfl⟩⟩
  · cases h
    exact ⟨rfl, rfl, .inr ⟨Classical.not_not.mp hd, hp, rfl⟩⟩

/-- A pass from the start walks the tokens of its lexemes from the start of the grammar. -/
theorem walk_of_run_initial {ls : List Lexeme} {st : Checker} (h : initial.run ls = .ok st) :
    Position.walk (.opening, 0) (ls.filterMap Lexeme.token?) = some (st.position, st.depth) :=
  (run_eq_ok_iff.mp h).2.1

/-- What a pass from the start accepts is a viable prefix. -/
theorem viablePrefix_of_run {ls : List Lexeme} {st : Checker} (h : initial.run ls = .ok st) :
    ViablePrefix ls := by
  refine ⟨(run_eq_ok_iff.mp h).1, (Position.beginsSentence_iff_walk _).mpr ?_⟩
  rw [walk_of_run_initial h]
  rfl

/-- The lexeme at which a step fails ends the viable prefix. -/
theorem not_viablePrefix_of_step {pre : List Lexeme} {l : Lexeme} {st : Checker}
    {e : SyntaxError} (hrun : initial.run pre = .ok st) (hstep : st.step l = .error e) :
    ¬ViablePrefix (pre ++ [l]) := by
  rintro ⟨hall, hbegin⟩
  rcases step_eq_error_cases hstep with hk | ⟨t, ht, hn⟩
  · exact hall l (by simp) hk
  · -- the walk reaches the lexeme's token and has nowhere to go
    have hw := (Position.beginsSentence_iff_walk _).mp hbegin
    rw [List.filterMap_append, List.filterMap_cons_some ht, List.filterMap_nil,
      Position.walk_append, walk_of_run_initial hrun] at hw
    simp [Position.walk, hn] at hw

/-- Before its first token the check has no group open, so a `)` there is always unmatched. -/
theorem depth_eq_zero_of_accepted_nil {ls : List Lexeme} {st : Checker}
    (h : initial.run ls = .ok st) (hacc : st.accepted = []) : st.depth = 0 := by
  obtain ⟨-, hwalk, hacc'⟩ := run_eq_ok_iff.mp h
  have hnil : ls.filterMap Lexeme.token? = [] := by
    rw [hacc] at hacc'
    simpa [initial] using hacc'.symm
  rw [hnil] at hwalk
  simp only [Position.walk, Option.some.injEq, Prod.mk.injEq] at hwalk
  exact hwalk.2.symm

/-- After a pass from the start, the end checks fail only on tokens that are no sentence: with
the groups they leave open when `(` outnumber `)`, and with a dangling end when they are as
many. -/
theorem finish_eq_error_counts {ls : List Lexeme} {st : Checker} {last : Lexeme}
    {e : SyntaxError} (hrun : initial.run ls = .ok st) (hfin : st.finish last = .error e) :
    ¬Derives .expr (ls.filterMap Lexeme.token?) ∧
      (((ls.filterMap Lexeme.token?).countP Token.closes <
            (ls.filterMap Lexeme.token?).countP Token.opens ∧
          e.fault = .unclosedParenthesis (unclosed (ls.filterMap Lexeme.token?))) ∨
        ((ls.filterMap Lexeme.token?).countP Token.opens =
            (ls.filterMap Lexeme.token?).countP Token.closes ∧
          e.fault = .danglingEnd)) := by
  have hwalk := walk_of_run_initial hrun
  -- the depth the end checks see is the count of `(` less the count of `)`
  obtain ⟨hcount, -⟩ := Position.walk_counts hwalk
  obtain ⟨-, -, hfault⟩ := finish_eq_error hfin
  refine ⟨fun hd => ?_, ?_⟩
  · -- a sentence ends at an operand with every group closed, where the end checks pass
    rw [(Position.walk_eq_operand_iff _).mpr hd] at hwalk
    obtain ⟨hp, hdepth⟩ := Prod.mk.inj (Option.some.inj hwalk)
    rcases hfault with ⟨hd0, -⟩ | ⟨-, hp', -⟩
    · exact hd0 hdepth.symm
    · exact hp' hp.symm
  · rcases hfault with ⟨hd0, hf⟩ | ⟨hd0, -, hf⟩
    · refine .inl ⟨by omega, ?_⟩
      rw [hf, unclosed]
      congr 1
      omega
    · exact .inr ⟨by omega, hf⟩

end Checker

namespace Formula

/-- A text is no formula in one of three ways: it has no lexemes; a step of the check fails at
some lexeme; or every lexeme passes and the end checks fail. -/
theorem parse_eq_error_cases {s : String} {e : SyntaxError} (h : parse s = .error e) :
    (lex s = [] ∧ e = ⟨.emptyFormula, s.utf8ByteSize, 0⟩) ∨
      (∃ pre l post st, lex s = pre ++ l :: post ∧ Checker.initial.run pre = .ok st ∧
        st.step l = .error e) ∨
      ∃ last st, (lex s).getLast? = some last ∧ Checker.initial.run (lex s) = .ok st ∧
        st.finish last = .error e := by
  simp only [parse] at h
  cases hlast : (lex s).getLast? with
  | none =>
    rw [hlast] at h
    cases h
    exact .inl ⟨List.getLast?_eq_none_iff.mp hlast, rfl⟩
  | some last =>
    rw [hlast] at h
    cases hrun : Checker.initial.run (lex s) with
    | error e' =>
      rw [hrun] at h
      cases h
      exact .inr (.inl (Checker.run_eq_error hrun))
    | ok st =>
      rw [hrun] at h
      exact .inr (.inr ⟨last, st, rfl, rfl, h⟩)

/-- Where a text that is no formula is reported. The check never meets a `)` with groups open
before its first token. A text is reported with an empty span at its end exactly when it has no
lexemes. A fault found at a lexeme is reported at the span of the lexeme that ends the viable
prefix. A fault of the end is reported at the last lexeme, when all the lexemes are a viable
prefix that is no sentence: with the number of groups left open when `(` outnumber `)`, and as a
dangling end when they are as many. -/
theorem parse_error_location (s : String) (e : SyntaxError) (h : parse s = .error e) :
    (∀ k st, Checker.initial.run ((lex s).take k) = .ok st → st.accepted = [] → st.depth = 0) ∧
    (e.fault = .emptyFormula ↔ lex s = []) ∧
    (e.fault = .emptyFormula → e.offset = s.utf8ByteSize ∧ e.length = 0) ∧
    (e.fault.atEnd = false →
      ∃ pre l post, lex s = pre ++ l :: post ∧ ViablePrefix pre ∧ ¬ViablePrefix (pre ++ [l]) ∧
        e.offset = l.offset ∧ e.length = l.length) ∧
    (e.fault.atEnd = true → e.fault ≠ .emptyFormula →
      ViablePrefix (lex s) ∧ ¬Derives .expr ((lex s).filterMap Lexeme.token?) ∧
      (∃ last, (lex s).getLast? = some last ∧ e.offset = last.offset ∧ e.length = last.length) ∧
      ((((lex s).filterMap Lexeme.token?).countP Token.closes <
            ((lex s).filterMap Lexeme.token?).countP Token.opens ∧
          e.fault = .unclosedParenthesis (unclosed ((lex s).filterMap Lexeme.token?))) ∨
        (((lex s).filterMap Lexeme.token?).countP Token.opens =
            ((lex s).filterMap Lexeme.token?).countP Token.closes ∧
          e.fault = .danglingEnd))) := by
  refine ⟨fun k st hrun hacc => Checker.depth_eq_zero_of_accepted_nil hrun hacc, ?_⟩
  rcases parse_eq_error_cases h with
    ⟨hnil, rfl⟩ | ⟨pre, l, post, st, hls, hrun, hstep⟩ | ⟨last, st, hlast, hrun, hfin⟩
  · -- no lexemes
    exact ⟨iff_of_true rfl hnil, fun _ => ⟨rfl, rfl⟩,
      fun hend => by simp [SyntaxFault.atEnd] at hend, fun _ hne => absurd rfl hne⟩
  · -- a step fails, at the lexeme that ends the viable prefix
    obtain ⟨hoff, hlen, hend⟩ := Checker.step_eq_error_span hstep
    have hne : e.fault ≠ .emptyFormula := fun hf => by simp [hf, SyntaxFault.atEnd] at hend
    refine ⟨iff_of_false hne (by simp [hls]), fun hf => absurd hf hne, fun _ => ?_,
      fun hend' => by simp [hend] at hend'⟩
    exact ⟨pre, l, post, hls, Checker.viablePrefix_of_run hrun,
      Checker.not_viablePrefix_of_step hrun hstep, hoff, hlen⟩
  · -- every lexeme passes and the end checks fail, at the last lexeme
    obtain ⟨hoff, hlen, hfault⟩ := Checker.finish_eq_error hfin
    obtain ⟨hnot, hcounts⟩ := Checker.finish_eq_error_counts hrun hfin
    have hend : e.fault.atEnd = true ∧ e.fault ≠ .emptyFormula := by
      rcases hfault with ⟨-, hf⟩ | ⟨-, -, hf⟩ <;> simp [hf, SyntaxFault.atEnd]
    have hne : lex s ≠ [] := fun hnil => by simp [hnil] at hlast
    refine ⟨iff_of_false hend.2 hne, fun hf => absurd hf hend.2,
      fun hend' => by simp [hend.1] at hend', fun _ _ => ?_⟩
    exact ⟨Checker.viablePrefix_of_run hrun, hnot, ⟨last, hlast, hoff, hlen⟩, hcounts⟩

/-- In "a + * b" the viable prefix is "a +", the "*" ends it, and the fault is reported at the
span of the "*". -/
theorem parse_error_location_adjacent_operators :
    parse "a + * b" = .error ⟨.adjacentOperators .star, 4, 1⟩ ∧
      ∃ pre l post, lex "a + * b" = pre ++ l :: post ∧ ViablePrefix pre ∧
        ¬ViablePrefix (pre ++ [l]) ∧ 4 = l.offset ∧ 1 = l.length := by
  have hparse : parse "a + * b" = .error ⟨.adjacentOperators .star, 4, 1⟩ := by
    rw [parse, lex_eq_lexWithin]
    rfl
  exact ⟨hparse, (parse_error_location _ _ hparse).2.2.2.1 rfl⟩

end Formula

end Formulas
