import Formulas.Proofs.Checker
import Formulas.Proofs.Progress
import Formulas.Evaluation.Machine
/-!
# The machine respects precedence

The evaluation machine never builds a tree, yet it computes what the layered parse tree of a
formula computes: the same value or the same error, after asking the lookup for the same names
in the same order. Operators are applied late, when a later token shows that their right operand
is complete; the proof pins down when that is for each nonterminal of the layered grammar.

Main statement: a formula has a layered parse tree, and its evaluation by the machine is the
evaluation of every such tree. The core is `Expr.IsParseTree.evaluates`, by induction over parse
trees: feeding the tokens of a tree and then settling before an operator that may follow it
amounts to pushing the tree's value and settling then.
-/

namespace Formulas

namespace Machine

variable (lookup : Lookup)

/-- Feeding two token lists is feeding one after the other. -/
theorem feed_append (m : Machine) (xs ys : List Token) :
    m.feed lookup (xs ++ ys) = (m.feed lookup xs >>= fun m' => m'.feed lookup ys) := by
  induction xs generalizing m with
  | nil => simp [feed]
  | cons t ts ih => simp [feed, ih]

/-- The operator on top of the pending stack, when the top is not a barrier. -/
def topOperator? : List Pending → Option Operator
  | .operator o :: _ => some o
  | _ => none

/-- Settling stops at once when the top of the pending stack is no operator, or one that binds
less tightly than the operator about to be pushed. -/
theorem settle_of_stop {o : Operator} {ps : List Pending} (vs : List Float)
    (h : ∀ t, topOperator? ps = some t → (t.isMultiplicative || !o.isMultiplicative) = false) :
    settle o vs ps = pure (vs, ps) := by
  match ps with
  | .operator t :: rest => simp [settle, h t rfl]
  | .barrier :: rest => simp [settle]
  | [] => simp [settle]

/-- Settling applies an operator on top that binds at least as tightly as the one to be pushed. -/
theorem settle_pop {o t : Operator} (h : (t.isMultiplicative || !o.isMultiplicative) = true)
    (b a : Float) (vs : List Float) (rest : List Pending) :
    settle o (b :: a :: vs) (.operator t :: rest) =
      (t.perform a b >>= fun v => settle o (v :: vs) rest) := by
  simp [settle, h, applyTop]

/-- Closing a group settles everything above its barrier, as before an additive operator, and then
removes the barrier. -/
theorem closeGroup_eq_settle (vs : List Float) (ps : List Pending) :
    closeGroup vs ps = (settle .plus vs ps >>= fun p => closeGroup p.1 p.2) := by
  induction ps generalizing vs with
  | nil => simp [closeGroup, settle]
  | cons p rest ih =>
    cases p with
    | barrier => simp [closeGroup, settle]
    | operator t =>
      simp only [closeGroup, settle, Operator.isMultiplicative, Bool.not_false, Bool.or_true, if_true, bind_assoc, ih]

/-- Draining settles everything above the first barrier, as before an additive operator, first. -/
theorem drain_eq_settle (vs : List Float) (ps : List Pending) :
    drain vs ps = (settle .plus vs ps >>= fun p => drain p.1 p.2) := by
  induction ps generalizing vs with
  | nil => simp [drain, settle]
  | cons p rest ih =>
    cases p with
    | barrier => simp [drain, settle]
    | operator t =>
      simp only [drain, settle, Operator.isMultiplicative, Bool.not_false, Bool.or_true, if_true, bind_assoc, ih]

end Machine

open Machine

/-- What feeding the tokens of a parse tree does to the machine, for each nonterminal. A factor
pushes its value. A term or an expression leaves its value once the operators it left pending
are settled before an operator that can follow it: any operator after a term whose stack does
not have a multiplicative operator on top, an additive one after an expression that starts a
group or the whole formula. -/
def Evaluates (lookup : Lookup) : Nonterminal → Expr → Prop
  | .factor, e => ∀ {β : Type} (m : Machine) (k : Machine → EvalM β),
      (m.feed lookup e.tokens >>= k) = (e.eval lookup >>= fun v => k ⟨v :: m.values, m.pending⟩)
  | .term, e => ∀ {β : Type} (m : Machine) (o : Operator) (k : List Float × List Pending → EvalM β),
      (∀ t, topOperator? m.pending = some t → t.isMultiplicative = false) →
      (m.feed lookup e.tokens >>= fun m' => settle o m'.values m'.pending >>= k) =
        (e.eval lookup >>= fun v => settle o (v :: m.values) m.pending >>= k)
  | .expr, e => ∀ {β : Type} (m : Machine) (o : Operator) (k : List Float × List Pending → EvalM β),
      topOperator? m.pending = none → o.isMultiplicative = false →
      (m.feed lookup e.tokens >>= fun m' => settle o m'.values m'.pending >>= k) =
        (e.eval lookup >>= fun v => settle o (v :: m.values) m.pending >>= k)

/-- Every parse tree evaluates on the machine as its nonterminal says. -/
theorem Expr.IsParseTree.evaluates {n : Nonterminal} {e : Expr} (h : e.IsParseTree n)
    (lookup : Lookup) : Evaluates lookup n e := by
  induction h with
  | number v literal =>
    intro β m k
    simp [Expr.tokens, feed, step, Expr.eval]
  | var name =>
    intro β m k
    simp [Expr.tokens, feed, step, Expr.eval]
  | @group e _ ih =>
    intro β m k
    have hclose : ∀ m' : Machine, (m'.feed lookup [.closeParen] >>= k) =
        (settle .plus m'.values m'.pending >>= fun p =>
          closeGroup p.1 p.2 >>= fun q => k ⟨q.1, q.2⟩) := by
      intro m'
      rw [feed, step, closeGroup_eq_settle]
      simp [feed]
    calc (m.feed lookup (Expr.group e).tokens >>= k)
        = ((⟨m.values, .barrier :: m.pending⟩ : Machine).feed lookup e.tokens >>= fun m' =>
            m'.feed lookup [.closeParen] >>= k) := by
          simp [Expr.tokens, feed, step, feed_append]
      _ = ((⟨m.values, .barrier :: m.pending⟩ : Machine).feed lookup e.tokens >>= fun m' =>
            settle .plus m'.values m'.pending >>= fun p =>
              closeGroup p.1 p.2 >>= fun q => k ⟨q.1, q.2⟩) := by
          simp only [hclose]
      _ = (e.eval lookup >>= fun v => settle .plus (v :: m.values) (.barrier :: m.pending) >>= fun p =>
              closeGroup p.1 p.2 >>= fun q => k ⟨q.1, q.2⟩) := ih _ .plus _ rfl rfl
      _ = (e.eval lookup >>= fun v => k ⟨v :: m.values, m.pending⟩) := by
          simp [settle, closeGroup]
  | factor _ ih =>
    intro β m o k hm
    exact ih m _
  | @mul p l r hp _ _ ihl ihr =>
    intro β m o k hm
    have ihr' : ∀ a, ((⟨a :: m.values, .operator p :: m.pending⟩ : Machine).feed lookup r.tokens >>=
        fun m' => settle o m'.values m'.pending >>= k) =
        (r.eval lookup >>= fun b => settle o (b :: a :: m.values) (.operator p :: m.pending) >>= k) :=
      fun a => ihr _ _
    have hstop : ∀ a, settle p (a :: m.values) m.pending = pure (a :: m.values, m.pending) :=
      fun a => settle_of_stop _ (fun t ht => by simp [hm t ht, hp])
    calc (m.feed lookup (Expr.binary p l r).tokens >>= fun m' => settle o m'.values m'.pending >>= k)
        = (m.feed lookup l.tokens >>= fun m' => settle p m'.values m'.pending >>= fun q =>
            (⟨q.1, .operator p :: q.2⟩ : Machine).feed lookup r.tokens >>= fun m' =>
              settle o m'.values m'.pending >>= k) := by
          simp [Expr.tokens, feed_append, feed, step]
      _ = (l.eval lookup >>= fun a => settle p (a :: m.values) m.pending >>= fun q =>
            (⟨q.1, .operator p :: q.2⟩ : Machine).feed lookup r.tokens >>= fun m' =>
              settle o m'.values m'.pending >>= k) := ihl m p _ hm
      _ = (l.eval lookup >>= fun a => r.eval lookup >>= fun b =>
            p.perform a b >>= fun v => settle o (v :: m.values) m.pending >>= k) := by
          simp [hstop, ihr', settle_pop, hp]
      _ = ((Expr.binary p l r).eval lookup >>= fun v => settle o (v :: m.values) m.pending >>= k) := by
          simp [Expr.eval]
  | term _ ih =>
    intro β m o k hm ho
    exact ih m o k (by simp [hm])
  | @add p l r hp _ _ ihl ihr =>
    intro β m o k hm ho
    have ihr' : ∀ a, ((⟨a :: m.values, .operator p :: m.pending⟩ : Machine).feed lookup r.tokens >>=
        fun m' => settle o m'.values m'.pending >>= k) =
        (r.eval lookup >>= fun b => settle o (b :: a :: m.values) (.operator p :: m.pending) >>= k) :=
      fun a => ihr _ _ _ (by simp [topOperator?, hp])
    have hstop : ∀ a, settle p (a :: m.values) m.pending = pure (a :: m.values, m.pending) :=
      fun a => settle_of_stop _ (fun t ht => by simp [hm] at ht)
    calc (m.feed lookup (Expr.binary p l r).tokens >>= fun m' => settle o m'.values m'.pending >>= k)
        = (m.feed lookup l.tokens >>= fun m' => settle p m'.values m'.pending >>= fun q =>
            (⟨q.1, .operator p :: q.2⟩ : Machine).feed lookup r.tokens >>= fun m' =>
              settle o m'.values m'.pending >>= k) := by
          simp [Expr.tokens, feed_append, feed, step]
      _ = (l.eval lookup >>= fun a => settle p (a :: m.values) m.pending >>= fun q =>
            (⟨q.1, .operator p :: q.2⟩ : Machine).feed lookup r.tokens >>= fun m' =>
              settle o m'.values m'.pending >>= k) := ihl m p _ hm hp
      _ = (l.eval lookup >>= fun a => r.eval lookup >>= fun b =>
            p.perform a b >>= fun v => settle o (v :: m.values) m.pending >>= k) := by
          simp [hstop, ihr', settle_pop, ho]
      _ = ((Expr.binary p l r).eval lookup >>= fun v => settle o (v :: m.values) m.pending >>= k) := by
          simp [Expr.eval]

/-- Feeding the tokens of an expression tree to the empty machine and draining it leaves the
tree's value alone on the stack. -/
theorem Expr.IsParseTree.feed_drain {e : Expr} (he : e.IsParseTree .expr) (lookup : Lookup)
    {β : Type} (k : List Float → EvalM β) :
    (empty.feed lookup e.tokens >>= fun m => drain m.values m.pending >>= k) =
      (e.eval lookup >>= fun v => k [v]) := by
  have hdrain : ∀ (m : Machine) (k : List Float → EvalM β), (drain m.values m.pending >>= k) =
      (settle .plus m.values m.pending >>= fun p => drain p.1 p.2 >>= k) := by
    intro m k
    rw [drain_eq_settle, bind_assoc]
  calc (empty.feed lookup e.tokens >>= fun m => drain m.values m.pending >>= k)
      = (empty.feed lookup e.tokens >>= fun m => settle .plus m.values m.pending >>= fun p =>
          drain p.1 p.2 >>= k) := by
        simp only [hdrain]
    _ = (e.eval lookup >>= fun v => settle .plus [v] [] >>= fun p => drain p.1 p.2 >>= k) :=
        he.evaluates lookup empty .plus _ rfl rfl
    _ = (e.eval lookup >>= fun v => k [v]) := by
        simp [settle, drain]

/-- The machine evaluates a formula as each of its layered parse trees does. -/
theorem Formula.evaluate_eq_eval {f : Formula} {e : Expr} (he : e.IsParseTree .expr)
    (ht : e.tokens = f.tokens) (lookup : Lookup) : f.evaluate lookup = e.eval lookup := by
  simp only [Formula.evaluate, ← ht, he.feed_drain]
  simp

/-- Every formula has a layered parse tree, and the machine evaluates it as each of its parse
trees does: for every lookup the same value or the same error, after the same names were asked
for in the same order. -/
theorem evaluate_eq_eval_parseTree {s : String} {f : Formula} (h : Formula.parse s = .ok f) :
    (∃ e : Expr, e.IsParseTree .expr ∧ e.tokens = f.tokens) ∧
      ∀ e : Expr, e.IsParseTree .expr → e.tokens = f.tokens →
        ∀ lookup, f.evaluate lookup = e.eval lookup :=
  ⟨(Formula.derives_of_parse h).exists_parseTree,
    fun _ he ht lookup => Formula.evaluate_eq_eval he ht lookup⟩

/-- `a+b*c` is a formula, whose evaluation is that of each of its layered parse trees. -/
theorem evaluate_eq_eval_parseTree_sum_product :
    Formula.parse "a+b*c" =
        .ok ⟨[.var "a", .operator .plus, .var "b", .operator .star, .var "c"]⟩ ∧
      (∃ e : Expr, e.IsParseTree .expr ∧
        e.tokens = [.var "a", .operator .plus, .var "b", .operator .star, .var "c"]) ∧
      ∀ e : Expr, e.IsParseTree .expr →
        e.tokens = [.var "a", .operator .plus, .var "b", .operator .star, .var "c"] →
        ∀ lookup, Formula.evaluate ⟨[.var "a", .operator .plus, .var "b", .operator .star,
          .var "c"]⟩ lookup = e.eval lookup := by
  have hparse : Formula.parse "a+b*c" =
      .ok ⟨[.var "a", .operator .plus, .var "b", .operator .star, .var "c"]⟩ := by
    rw [Formula.parse, lex_eq_lexWithin]
    rfl
  exact ⟨hparse, evaluate_eq_eval_parseTree hparse⟩

end Formulas
