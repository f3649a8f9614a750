import Formulas.Formula.Parse
import Formulas.Evaluation.Tree
/-!
# The formula grammar

Two grammars describe the same formulas. The flat one is the one the syntax check enforces:
`Expr ::= Atom (Op Atom)*` and `Atom ::= number | name | ( Expr )`, with no precedence at all.
The layered one reads precedence into the tree: `Expr ::= Expr (+|-) Term | Term`,
`Term ::= Term (*|/) Factor | Factor` and `Factor ::= number | name | ( Expr )`, so that `*` and
`/` bind tighter than `+` and `-` and all four group to the left. Main statement: every sentence
of the flat grammar is the token sequence of a layered tree.
-/

namespace Formulas

/-- The token a lexeme stands for in a formula; an unrecognised run stands for none. -/
def Lexeme.token? (l : Lexeme) : Option Token :=
  match l.kind with
  | .number v => some (.number v l.text)
  | .name => some (.var l.text)
  | .operator o => some (.operator o)
  | .openParen => some .openParen
  | .closeParen => some .closeParen
  | .unrecognised => none

/-- Only an unrecognised run stands for no token. -/
theorem Lexeme.token?_isSome_iff (l : Lexeme) : l.token?.isSome ↔ l.kind ≠ .unrecognised := by
  rcases l with ⟨kind, text, offset⟩
  cases kind <;> simp [token?]

/-- The token a lexeme stands for, class by class. -/
theorem Lexeme.token?_eq_some {l : Lexeme} {t : Token} (h : l.token? = some t) :
    (∃ v, l.kind = .number v ∧ t = .number v l.text) ∨ (l.kind = .name ∧ t = .var l.text) ∨
      (∃ o, l.kind = .operator o ∧ t = .operator o) ∨ (l.kind = .openParen ∧ t = .openParen) ∨
      (l.kind = .closeParen ∧ t = .closeParen) := by
  rcases l with ⟨kind, text, offset⟩
  cases kind with
  | number v => exact .inl ⟨v, rfl, (Option.some.inj h).symm⟩
  | name => exact .inr (.inl ⟨rfl, (Option.some.inj h).symm⟩)
  | operator o => exact .inr (.inr (.inl ⟨o, rfl, (Option.some.inj h).symm⟩))
  | openParen => exact .inr (.inr (.inr (.inl ⟨rfl, (Option.some.inj h).symm⟩)))
  | closeParen => exact .inr (.inr (.inr (.inr ⟨rfl, (Option.some.inj h).symm⟩)))
  | unrecognised => cases h

/-- The two phrases of the flat grammar. -/
inductive Phrase where
  | expr
  | atom

/-- Derivations of the flat grammar; the repetition `(Op Atom)*` is read from the left. -/
inductive Derives : Phrase → List Token → Prop
  | number (v : Float) (literal : String) : Derives .atom [.number v literal]
  | var (name : String) : Derives .atom [.var name]
  | group {e : List Token} : Derives .expr e → Derives .atom (.openParen :: e ++ [.closeParen])
  | atom {a : List Token} : Derives .atom a → Derives .expr a
  | snoc {e a : List Token} (o : Operator) :
      Derives .expr e → Derives .atom a → Derives .expr (e ++ .operator o :: a)

/-- No phrase is empty. -/
theorem Derives.ne_nil {c : Phrase} {ts : List Token} (h : Derives c ts) : ts ≠ [] := by
  induction h with
  | number | var | group => simp
  | atom _ ih => exact ih
  | snoc => simp

/-- The three nonterminals of the layered grammar. -/
inductive Nonterminal where
  | expr
  | term
  | factor

/-- `e.IsParseTree n` says that `e` is a parse tree of the layered grammar for `n`: the right
operand of `*` and `/` is a factor, the right operand of `+` and `-` is a term, and a group holds
a whole expression. -/
inductive Expr.IsParseTree : Nonterminal → Expr → Prop
  | number (v : Float) (literal : String) : IsParseTree .factor (.number v literal)
  | var (name : String) : IsParseTree .factor (.var name)
  | group {e : Expr} : IsParseTree .expr e → IsParseTree .factor (.group e)
  | factor {e : Expr} : IsParseTree .factor e → IsParseTree .term e
  | mul {o : Operator} {l r : Expr} : o.isMultiplicative = true →
      IsParseTree .term l → IsParseTree .factor r → IsParseTree .term (.binary o l r)
  | term {e : Expr} : IsParseTree .term e → IsParseTree .expr e
  | add {o : Operator} {l r : Expr} : o.isMultiplicative = false →
      IsParseTree .expr l → IsParseTree .term r → IsParseTree .expr (.binary o l r)

/-- The layered nonterminal that derives what a flat phrase derives. -/
def Phrase.layer : Phrase → Nonterminal
  | expr => .expr
  | atom => .factor

namespace Expr.IsParseTree

/-- An expression followed by an operator and a factor is again an expression. A multiplicative
operator takes the last term as its left operand, an additive one the whole expression. -/
theorem extend {e a : Expr} (o : Operator) (he : e.IsParseTree .expr)
    (ha : a.IsParseTree .factor) :
    ∃ e' : Expr, e'.IsParseTree .expr ∧ e'.tokens = e.tokens ++ .operator o :: a.tokens := by
  cases hm : o.isMultiplicative with
  | false => exact ⟨.binary o e a, .add hm he (.factor ha), rfl⟩
  | true =>
    cases he with
    | term ht => exact ⟨.binary o e a, .term (.mul hm ht ha), rfl⟩
    | @add p l r hp hl hr =>
      refine ⟨.binary p l (.binary o r a), .add hp hl (.mul hm hr ha), ?_⟩
      simp [Expr.tokens]

end Expr.IsParseTree

/-- Every phrase of the flat grammar is the token sequence of a layered tree: an atom of a
factor, and an expression of an expression. -/
theorem Derives.exists_parseTree {c : Phrase} {ts : List Token} (h : Derives c ts) :
    ∃ e : Expr, e.IsParseTree c.layer ∧ e.tokens = ts := by
  induction h with
  | number v literal => exact ⟨.number v literal, .number v literal, rfl⟩
  | var name => exact ⟨.var name, .var name, rfl⟩
  | group _ ih =>
    obtain ⟨e, he, rfl⟩ := ih
    exact ⟨.group e, .group he, rfl⟩
  | atom _ ih =>
    obtain ⟨e, he, rfl⟩ := ih
    exact ⟨e, .term (.factor he), rfl⟩
  | snoc o _ _ ihe iha =>
    obtain ⟨e, he, rfl⟩ := ihe
    obtain ⟨a, ha, rfl⟩ := iha
    exact Expr.IsParseTree.extend o he ha

end Formulas
