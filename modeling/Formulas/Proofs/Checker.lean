import Formulas.Proofs.Grammar
/-!
# The syntax check decides the flat grammar

The check reads lexemes from left to right and keeps only a position (what the last lexeme
allows next) and a depth (how many `(` are unclosed). Apart from where a fault is reported, one
step of it is `Position.next` on the lexeme's token, and a whole pass is `Position.walk`.

Main statement: a text is a formula exactly when none of its lexemes is unrecognised and their
tokens form a sentence of `Expr ::= Atom (Op Atom)*`, and the formula is then that token
sequence. The direction from the grammar to the check is an induction over derivations. The
other direction carries an invariant along the pass: the tokens so far are unfinished
expressions, each closed off by an unclosed `(`, then the tokens that the position describes.
-/

namespace Formulas

namespace Position

/-- What the check does with one more token at depth `d`, apart from where it reports a fault:
the position and depth after the token, when the grammar can continue with it. -/
def next (p : Position) (d : Nat) : Token → Option (Position × Nat)
  | .number .. | .var _ => if p = .operand then none else some (.operand, d)
  | .operator o => if p = .operand then some (.operator o, d) else none
  | .openParen => if p = .operand then none else some (.opening, d + 1)
  | .closeParen => if p = .operand ∧ d ≠ 0 then some (.operand, d - 1) else none

/-- The position and depth after some tokens, when the grammar can continue with each of them. -/
def walk : Position × Nat → List Token → Option (Position × Nat)
  | s, [] => some s
  | (p, d), t :: ts => (p.next d t).bind (walk · ts)

theorem walk_append (s : Position × Nat) (xs ys : List Token) :
    walk s (xs ++ ys) = (walk s xs).bind (walk · ys) := by
  induction xs generalizing s with
  | nil => rfl
  | cons t ts ih =>
    rcases s with ⟨p, d⟩
    simp only [List.cons_append, walk, ih, Option.bind_assoc]

end Position

namespace Checker

/-- One step of the check succeeds exactly when the lexeme stands for a token that the grammar
can continue with; the token is then accepted. -/
theorem step_eq_ok_iff {st st' : Checker} {l : Lexeme} :
    st.step l = .ok st' ↔ ∃ t, l.token? = some t ∧
      st.position.next st.depth t = some (st'.position, st'.depth) ∧
      st'.accepted = t :: st.accepted := by
  rcases l with ⟨kind, text, offset⟩
  rcases st with ⟨position, depth, accepted⟩
  rcases st' with ⟨position', depth', accepted'⟩
  cases kind <;> cases position <;> simp [step, push, Lexeme.token?, Position.next] <;> grind

/-- A pass of the check succeeds exactly when no lexeme is unrecognised and the walk over their
tokens succeeds; the tokens are then accepted, the last one on top. -/
theorem run_eq_ok_iff {st st' : Checker} {ls : List Lexeme} :
    st.run ls = .ok st' ↔ (∀ l ∈ ls, l.kind ≠ .unrecognised) ∧
      Position.walk (st.position, st.depth) (ls.filterMap Lexeme.token?) =
        some (st'.position, st'.depth) ∧
      st'.accepted = (ls.filterMap Lexeme.token?).reverse ++ st.accepted := by
  induction ls generalizing st with
  | nil =>
    rcases st with ⟨p, d, acc⟩
    rcases st' with ⟨p', d', acc'⟩
    simp only [run, Except.ok.injEq, List.not_mem_nil, List.filterMap_nil, Position.walk,
      Option.some.injEq, Prod.mk.injEq, List.reverse_nil, List.nil_append, Checker.mk.injEq]
    constructor
    · rintro ⟨rfl, rfl, rfl⟩
      exact ⟨fun _ h => h.elim, ⟨rfl, rfl⟩, rfl⟩
    · rintro ⟨-, ⟨rfl, rfl⟩, rfl⟩
      exact ⟨rfl, rfl, rfl⟩
  | cons l ls ih =>
    constructor
    · intro h
      cases hs : st.step l with
      | error e => simp [run, hs] at h
      | ok st1 =>
        rw [run, hs] at h
        obtain ⟨t, ht, hn, hacc1⟩ := step_eq_ok_iff.mp hs
        obtain ⟨hall, hwalk, hacc⟩ := ih.mp h
        have hl : l.kind ≠ .unrecognised := (Lexeme.token?_isSome_iff l).mp (by simp [ht])
        refine ⟨?_, ?_, ?_⟩
        · intro l' hl'
          rcases List.mem_cons.mp hl' with rfl | hl'
          · exact hl
          · exact hall l' hl'
        · simpa [List.filterMap_cons_some ht, Position.walk, hn] using hwalk
        · simp [List.filterMap_cons_some ht, hacc, hacc1]
    · rintro ⟨hall, hwalk, hacc⟩
      obtain ⟨t, ht⟩ := Option.isSome_iff_exists.mp
        ((Lexeme.token?_isSome_iff l).mpr (hall l List.mem_cons_self))
      rw [List.filterMap_cons_some ht] at hwalk hacc
      obtain ⟨⟨p, d⟩, hn, hwalk⟩ := Option.bind_eq_some_iff.mp hwalk
      have hs : st.step l = .ok ⟨p, d, t :: st.accepted⟩ := step_eq_ok_iff.mpr ⟨t, ht, hn, rfl⟩
      rw [run, hs]
      exact ih.mpr ⟨fun l' hl' => hall l' (List.mem_cons_of_mem l hl'), hwalk, by simp [hacc]⟩

end Checker

/-- A phrase leaves the check where it found it, at an operand: from any position that expects
an operand, at any depth. -/
theorem Derives.walk_eq {c : Phrase} {ts : List Token} (h : Derives c ts) {p : Position}
    (hp : p ≠ .operand) (d : Nat) : Position.walk (p, d) ts = some (.operand, d) := by
  induction h generalizing p d with
  | number | var => simp [Position.walk, Position.next, hp]
  | group _ ih =>
    have hin := ih (p := .opening) (by decide) (d + 1)
    simp [Position.walk, Position.next, hp, Position.walk_append, hin]
  | atom _ ih => exact ih hp d
  | snoc o _ _ ihe iha =>
    have ha := iha (p := .operator o) (by simp) d
    simp [Position.walk_append, ihe hp d, Position.walk, Position.next, ha]

namespace Position

/-- The tokens since the innermost unclosed `(`, as the position after them describes them:
none at an opening, an expression and then an operator at an operator, and a whole expression
at an operand. -/
def Ends : Position → List Token → Prop
  | .opening, r => r = []
  | .operator o, r => ∃ e, Derives .expr e ∧ r = e ++ [.operator o]
  | .operand, r => Derives .expr r

/-- An atom completes what a position that expects an operand describes into an expression. -/
theorem Ends.append_atom {p : Position} {r a : List Token} (hp : p ≠ .operand) (hr : p.Ends r)
    (ha : Derives .atom a) : Derives .expr (r ++ a) := by
  cases p with
  | opening =>
    have hr : r = [] := hr
    subst hr
    exact .atom ha
  | operator o =>
    obtain ⟨e, he, rfl⟩ := hr
    simpa using Derives.snoc o he ha
  | operand => exact absurd rfl hp

/-- The tokens up to the innermost unclosed `(`, with `d` groups unclosed: each `(` follows
what a position that expects an operand describes. -/
inductive Enclosing : Nat → List Token → Prop
  | top : Enclosing 0 []
  | group {d : Nat} {c r : List Token} {p : Position} : Enclosing d c → p ≠ .operand → p.Ends r →
      Enclosing (d + 1) (c ++ r ++ [.openParen])

/-- Tokens that the check can have accepted and arrived at position and depth `s`: the enclosing
groups, then what the position describes. -/
def Viable (s : Position × Nat) (ts : List Token) : Prop :=
  ∃ c r, Enclosing s.2 c ∧ s.1.Ends r ∧ ts = c ++ r

/-- One step of the check keeps the tokens viable. -/
theorem Viable.next {s s' : Position × Nat} {ts : List Token} {t : Token} (hv : Viable s ts)
    (hn : s.1.next s.2 t = some s') : Viable s' (ts ++ [t]) := by
  obtain ⟨c, r, hc, hr, rfl⟩ := hv
  rcases s with ⟨p, d⟩
  cases t with
  | number v literal =>
    by_cases hp : p = .operand
    · simp [Position.next, hp] at hn
    · simp only [Position.next, if_neg hp, Option.some.injEq] at hn
      subst hn
      exact ⟨c, r ++ [.number v literal], hc, hr.append_atom hp (.number v literal), by simp⟩
  | var name =>
    by_cases hp : p = .operand
    · simp [Position.next, hp] at hn
    · simp only [Position.next, if_neg hp, Option.some.injEq] at hn
      subst hn
      exact ⟨c, r ++ [.var name], hc, hr.append_atom hp (.var name), by simp⟩
  | operator o =>
    by_cases hp : p = .operand
    · simp only [Position.next, if_pos hp, Option.some.injEq] at hn
      subst hn hp
      exact ⟨c, r ++ [.operator o], hc, ⟨r, hr, rfl⟩, by simp⟩
    · simp [Position.next, hp] at hn
  | openParen =>
    by_cases hp : p = .operand
    · simp [Position.next, hp] at hn
    · simp only [Position.next, if_neg hp, Option.some.injEq] at hn
      subst hn
      exact ⟨c ++ r ++ [.openParen], [], .group hc hp hr, rfl, by simp⟩
  | closeParen =>
    by_cases hp : p = .operand ∧ d ≠ 0
    · simp only [Position.next, if_pos hp, Option.some.injEq] at hn
      subst hn
      obtain ⟨rfl, hd⟩ := hp
      cases hc with
      | top => exact absurd rfl hd
      | @group d c0 r0 p0 hc0 hp0 hr0 =>
        refine ⟨c0, r0 ++ (.openParen :: r ++ [.closeParen]), hc0,
          hr0.append_atom hp0 (.group hr), ?_⟩
        simp
    · simp [Position.next, hp] at hn

/-- A whole pass of the check keeps the tokens viable. -/
theorem Viable.walk {s s' : Position × Nat} {ts xs : List Token} (hv : Viable s ts)
    (hw : walk s xs = some s') : Viable s' (ts ++ xs) := by
  induction xs generalizing s ts with
  | nil =>
    rw [Position.walk, Option.some.injEq] at hw
    subst hw
    simpa using hv
  | cons x xs ih =>
    rcases s with ⟨p, d⟩
    obtain ⟨s1, h1, h2⟩ := Option.bind_eq_some_iff.mp hw
    simpa using ih (hv.next h1) h2

/-- A pass from the start ends at an operand outside all groups exactly on the sentences of the
flat grammar. -/
theorem walk_eq_operand_iff (ts : List Token) :
    walk (.opening, 0) ts = some (.operand, 0) ↔ Derives .expr ts := by
  constructor
  · intro hw
    have hv : Viable (.opening, 0) [] := ⟨[], [], .top, rfl, rfl⟩
    obtain ⟨c, r, hc, hr, hts⟩ := hv.walk hw
    cases hc
    rw [List.nil_append, List.nil_append] at hts
    rw [hts]
    exact hr
  · intro h
    exact h.walk_eq (by decide) 0

end Position

namespace Formula

/-- A text is a formula exactly when none of its lexemes is unrecognised and a walk over their
tokens from the start ends at an operand outside all groups; the formula is then that token
sequence. -/
theorem parse_eq_ok_iff_walk (s : String) (f : Formula) :
    parse s = .ok f ↔ (∀ l ∈ lex s, l.kind ≠ .unrecognised) ∧
      Position.walk (.opening, 0) ((lex s).filterMap Lexeme.token?) = some (.operand, 0) ∧
      f.tokens = (lex s).filterMap Lexeme.token? := by
  rcases f with ⟨tokens⟩
  simp only [parse]
  cases hlast : (lex s).getLast? with
  | none =>
    have hnil : lex s = [] := List.getLast?_eq_none_iff.mp hlast
    simp [hnil, Position.walk]
  | some last =>
    simp only
    cases hrun : Checker.initial.run (lex s) with
    | error e =>
      simp only [reduceCtorEq, false_iff, not_and]
      intro hall hwalk
      have hok : Checker.initial.run (lex s) =
          .ok ⟨.operand, 0, ((lex s).filterMap Lexeme.token?).reverse⟩ :=
        Checker.run_eq_ok_iff.mpr ⟨hall, hwalk, by simp [Checker.initial]⟩
      rw [hrun] at hok
      cases hok
    | ok st =>
      dsimp only
      obtain ⟨hall, hwalk, hacc⟩ := Checker.run_eq_ok_iff.mp hrun
      simp only [Checker.initial, List.append_nil] at hwalk hacc
      rw [hwalk]
      by_cases hd : st.depth = 0
      · by_cases hp : st.position = .operand
        · have hfin : st.finish last = .ok ⟨(lex s).filterMap Lexeme.token?⟩ := by
            simp [Checker.finish, hd, hp, hacc]
          rw [hfin, Except.ok.injEq, Formula.mk.injEq, hp, hd]
          exact ⟨fun h => ⟨hall, rfl, h.symm⟩, fun h => h.2.2.symm⟩
        · simp [Checker.finish, hd, hp]
      · simp [Checker.finish, hd]

/-- The tokens of a formula walk from the start to an operand outside all groups. -/
theorem walk_of_parse {s : String} {f : Formula} (h : parse s = .ok f) :
    Position.walk (.opening, 0) f.tokens = some (.operand, 0) := by
  obtain ⟨-, hwalk, htokens⟩ := (parse_eq_ok_iff_walk s f).mp h
  rw [htokens]
  exact hwalk

/-- The tokens of a formula form a sentence of the flat grammar. -/
theorem derives_of_parse {s : String} {f : Formula} (h : parse s = .ok f) :
    Derives .expr f.tokens :=
  (Position.walk_eq_operand_iff _).mp (walk_of_parse h)

end Formula

/-- A text is a formula exactly when none of its lexemes is unrecognised and their tokens form a
sentence of the flat grammar; the formula is then that token sequence, one token per lexeme. -/
theorem parse_eq_ok_iff (s : String) (f : Formula) :
    Formula.parse s = .ok f ↔
      (∀ l ∈ lex s, l.kind ≠ .unrecognised) ∧ Derives .expr ((lex s).filterMap Lexeme.token?) ∧
        f.tokens = (lex s).filterMap Lexeme.token? := by
  rw [Formula.parse_eq_ok_iff_walk, Position.walk_eq_operand_iff]

end Formulas
