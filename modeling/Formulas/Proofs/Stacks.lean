import Formulas.Proofs.Precedence
/-!
# The stacks of the evaluation machine

The machine never checks a formula again; it relies on the syntax check for the shape of its
stacks. Main statement: on every formula, whatever the lookup, after each token the pending
stack holds a barrier per group still open, each segment between barriers holds at most one
multiplicative operator above at most one additive one, and there is a value per pending
operator, one more after a completed operand. So no step of the machine ever gets stuck.

The proof runs the machine beside the walk of the syntax check: one lemma per token says that a
step the check allows keeps the shape, and a run lemma carries it over the walk. Evaluation
steps may fail, so their results are described by `EvalM.Safe`: every way the step can end is an
error other than `stuck` or a result of the stated shape.
-/

namespace Formulas

/-- Every way a computation can end, from any record of names asked for: with an error other
than `stuck`, or with a result that satisfies `P`. -/
def EvalM.Safe {α : Type} (x : EvalM α) (P : α → Prop) : Prop :=
  ∀ r, match ((ExceptT.run x).run r).run with
    | (.ok a, _) => P a
    | (.error e, _) => e ≠ .stuck

namespace EvalM.Safe

variable {α β : Type} {P Q : α → Prop}

theorem pure' {a : α} (h : P a) : Safe (pure a) P := by
  intro r
  simpa using h

theorem bind' {x : EvalM α} {R : β → Prop} {f : α → EvalM β} (hx : Safe x P)
    (hf : ∀ a, P a → Safe (f a) R) : Safe (x >>= f) R := by
  intro r
  have hr := hx r
  simp only [ExceptT.run_bind, StateT.run_bind, Id.run_bind]
  rcases hrun : ((ExceptT.run x).run r).run with ⟨res, r'⟩
  rw [hrun] at hr
  cases res with
  | error e => simpa [hrun] using hr
  | ok a => simpa [hrun] using hf a hr r'

theorem throw' {e : EvalError} (h : e ≠ .stuck) : Safe (throw e : EvalM α) P := by
  intro r
  simpa using h

theorem of_run_ok {x : EvalM α} (hx : Safe x P) {r r' : Array String} {a : α}
    (h : ((ExceptT.run x).run r).run = (.ok a, r')) : P a := by
  have hr := hx r
  rw [h] at hr
  exact hr

theorem run_ne_stuck {x : EvalM α} (hx : Safe x P) (r : Array String) :
    (((ExceptT.run x).run r).run).1 ≠ .error .stuck := by
  have hr := hx r
  rcases hrun : ((ExceptT.run x).run r).run with ⟨res, r'⟩
  rw [hrun] at hr
  cases res with
  | ok a => simp
  | error e => simpa using hr

theorem mono {x : EvalM α} (hx : Safe x P) (h : ∀ a, P a → Q a) : Safe x Q := by
  intro r
  have hr := hx r
  split at hr <;> simp_all

end EvalM.Safe

theorem ask_safe (lookup : Lookup) (name : String) : (ask lookup name).Safe (fun _ => True) := by
  have hmodify : ∀ r, ((ExceptT.run (modify (·.push name) : EvalM Unit)).run r).run =
      (.ok (), r.push name) := fun _ => rfl
  unfold ask
  refine EvalM.Safe.bind' (P := fun _ => True) (fun r => by rw [hmodify]; trivial) ?_
  intro _ _
  cases lookup name with
  | some v => exact EvalM.Safe.pure' trivial
  | none => exact EvalM.Safe.throw' (by simp)

theorem perform_safe (o : Operator) (a b : Float) : (o.perform a b).Safe (fun _ => True) := by
  unfold Operator.perform
  split
  · exact EvalM.Safe.throw' (by simp)
  · exact EvalM.Safe.pure' trivial


/-- Whether a pending entry is an operator. -/
def Pending.isOperator : Pending → Bool
  | .operator _ => true
  | .barrier => false

namespace Machine

/-- The number of operators on a pending stack. -/
def operatorCount (ps : List Pending) : Nat := ps.countP Pending.isOperator

/-- A segment of the pending stack between two barriers, top first: at most one multiplicative
operator above at most one additive one. -/
def SegmentShape : List Operator → Prop
  | [] => True
  | [_] => True
  | [m, a] => m.isMultiplicative = true ∧ a.isMultiplicative = false
  | _ => False

/-- The pending stack, split at its barriers, is made of segments of that shape. -/
inductive Segmented : List Pending → Prop
  | top {seg : List Operator} : SegmentShape seg → Segmented (seg.map .operator)
  | group {seg : List Operator} {ps : List Pending} : SegmentShape seg → Segmented ps →
      Segmented (seg.map .operator ++ .barrier :: ps)

/-- The stacks with `depth` groups open, after a completed operand or not: a barrier per open
group, segments of the right shape, and a value per pending operator, one more after a completed
operand. -/
structure Shaped (m : Machine) (depth : Nat) (completed : Bool) : Prop where
  barriers : m.pending.count .barrier = depth
  segmented : Segmented m.pending
  values : m.values.length = operatorCount m.pending + if completed then 1 else 0

@[simp] theorem operatorCount_nil : operatorCount [] = 0 := rfl

@[simp] theorem operatorCount_cons_operator (o : Operator) (ps : List Pending) :
    operatorCount (.operator o :: ps) = operatorCount ps + 1 := by
  simp [operatorCount, List.countP_cons, Pending.isOperator]

@[simp] theorem operatorCount_cons_barrier (ps : List Pending) :
    operatorCount (.barrier :: ps) = operatorCount ps := by
  simp [operatorCount, Pending.isOperator]

@[simp] theorem operatorCount_append (xs ys : List Pending) :
    operatorCount (xs ++ ys) = operatorCount xs + operatorCount ys := by
  simp [operatorCount, List.countP_append]

@[simp] theorem operatorCount_map (seg : List Operator) :
    operatorCount (seg.map Pending.operator) = seg.length := by
  induction seg with
  | nil => rfl
  | cons o seg ih => simp [ih]

@[simp] theorem count_barrier_map (seg : List Operator) :
    (seg.map Pending.operator).count Pending.barrier = 0 :=
  List.count_eq_zero.mpr (by simp)

/-- Settling before `o` applies the operators of the top segment that bind at least as tightly
as `o`, from the top down, and stops at the first one that does not. -/
theorem settle_segment (lookup : Lookup) (o : Operator) (rest : List Pending)
    (hrest : topOperator? rest = none) (c : Nat) :
    ∀ (seg : List Operator) (vs : List Float), vs.length = seg.length + c + 1 →
      (settle o vs (seg.map .operator ++ rest)).Safe (fun p =>
        p.2 = (seg.dropWhile fun t => t.isMultiplicative || !o.isMultiplicative).map .operator ++ rest ∧
        p.1.length = (seg.dropWhile fun t => t.isMultiplicative || !o.isMultiplicative).length + c + 1)
  | [], vs, hvs => by
    rw [List.map_nil, List.nil_append, settle_of_stop vs (by simp [hrest])]
    exact EvalM.Safe.pure' ⟨rfl, by simpa using hvs⟩
  | t :: seg, vs, hvs => by
    by_cases ht : (t.isMultiplicative || !o.isMultiplicative) = true
    · rcases vs with _ | ⟨b, _ | ⟨a, vs⟩⟩
      · simp at hvs
      · simp at hvs
      rw [List.map_cons, List.cons_append, settle_pop ht]
      simp only [List.dropWhile_cons, ht, if_true]
      refine EvalM.Safe.bind' (perform_safe t a b) fun v _ => ?_
      exact settle_segment lookup o rest hrest c seg (v :: vs) (by simp at hvs ⊢; omega)
    · rw [List.map_cons, List.cons_append, settle_of_stop vs (by simpa [topOperator?] using ht)]
      simp only [List.dropWhile_cons, ht]
      exact EvalM.Safe.pure' ⟨rfl, by simpa using hvs⟩

/-- An additive operator settles every operator of the top segment. -/
theorem dropWhile_settles_all {o : Operator} (ho : o.isMultiplicative = false) :
    ∀ seg : List Operator, (seg.dropWhile fun t => t.isMultiplicative || !o.isMultiplicative) = []
  | [] => rfl
  | t :: seg => by
    rw [List.dropWhile_cons, if_pos (by simp [ho])]
    exact dropWhile_settles_all ho seg

/-- Pushing an operator after settling keeps the top segment's shape: an additive operator
settles the whole segment, a multiplicative one at most the multiplicative operator on top. -/
theorem SegmentShape.push {seg : List Operator} (hs : SegmentShape seg) (o : Operator) :
    SegmentShape (o :: seg.dropWhile fun t => t.isMultiplicative || !o.isMultiplicative) := by
  cases ho : o.isMultiplicative with
  | false =>
    rw [← ho, dropWhile_settles_all ho]
    trivial
  | true =>
    match seg, hs with
    | [], _ => trivial
    | [t], _ =>
      cases ht : t.isMultiplicative <;> simp [ht, ho, SegmentShape]
    | [m, a], ⟨hm, ha⟩ => simp [hm, ha, ho, SegmentShape]

/-- Settling before an operator, on stacks after a completed operand, leaves stacks on which the
operator can be pushed without breaking a segment's shape. -/
theorem Segmented.settle (lookup : Lookup) (o : Operator) {ps : List Pending} (hps : Segmented ps)
    {vs : List Float} (hvs : vs.length = operatorCount ps + 1) :
    (Machine.settle o vs ps).Safe (fun p => Segmented (.operator o :: p.2) ∧
      p.1.length = operatorCount p.2 + 1 ∧ p.2.count .barrier = ps.count .barrier) := by
  cases hps with
  | @top seg hs =>
    have h := settle_segment lookup o [] rfl 0 seg vs (by simpa using hvs)
    rw [List.append_nil] at h
    refine h.mono fun p hp => ?_
    obtain ⟨hp, hlen⟩ := hp
    refine ⟨?_, ?_, ?_⟩
    · rw [hp, List.append_nil, ← List.map_cons]
      exact .top (hs.push o)
    · simp [hp, hlen]
    · simp [hp]
  | @group seg ps0 hs hps0 =>
    have h := settle_segment lookup o (.barrier :: ps0) rfl (operatorCount ps0) seg vs (by
      simpa using hvs)
    refine h.mono fun p hp => ?_
    obtain ⟨hp, hlen⟩ := hp
    refine ⟨?_, ?_, ?_⟩
    · rw [hp, ← List.cons_append, ← List.map_cons]
      exact .group (hs.push o) hps0
    · simp [hp, hlen]
    · simp [hp]

/-- Closing a group, on stacks after a completed operand with a group open, settles the top
segment and removes its barrier. -/
theorem Segmented.closeGroup (lookup : Lookup) {ps : List Pending} (hps : Segmented ps)
    (hopen : ps.count .barrier ≠ 0) {vs : List Float} (hvs : vs.length = operatorCount ps + 1) :
    (Machine.closeGroup vs ps).Safe (fun p => Segmented p.2 ∧
      p.1.length = operatorCount p.2 + 1 ∧ p.2.count .barrier + 1 = ps.count .barrier) := by
  cases hps with
  | top => simp at hopen
  | @group seg ps0 hs hps0 =>
    rw [closeGroup_eq_settle]
    have h := settle_segment lookup .plus (.barrier :: ps0) rfl (operatorCount ps0) seg vs
      (by simpa using hvs)
    rw [dropWhile_settles_all rfl] at h
    refine h.bind' fun q hq => ?_
    obtain ⟨hp, hlen⟩ := hq
    rcases q with ⟨vs', ps'⟩
    simp only [List.map_nil, List.nil_append] at hp hlen
    subst hp
    exact EvalM.Safe.pure' ⟨hps0, by simpa using hlen, by simp⟩

/-- Draining, on stacks after a completed operand with no group open, leaves a single value. -/
theorem Segmented.drain (lookup : Lookup) {ps : List Pending} (hps : Segmented ps)
    (hclosed : ps.count .barrier = 0) {vs : List Float} (hvs : vs.length = operatorCount ps + 1) :
    (Machine.drain vs ps).Safe (fun vs' => vs'.length = 1) := by
  cases hps with
  | group => simp at hclosed
  | @top seg hs =>
    rw [drain_eq_settle]
    have h := settle_segment lookup .plus [] rfl 0 seg vs (by simpa using hvs)
    rw [List.append_nil, dropWhile_settles_all rfl] at h
    refine h.bind' fun q hq => ?_
    obtain ⟨hp, hlen⟩ := hq
    rcases q with ⟨vs', ps'⟩
    simp only [List.map_nil, List.nil_append] at hp hlen
    subst hp
    exact EvalM.Safe.pure' (by simpa using hlen)

/-- One token keeps the stacks in the shape that the position and depth after it call for. -/
theorem Shaped.step (lookup : Lookup) {m : Machine} {p p' : Position} {d d' : Nat} {t : Token}
    (hm : m.Shaped d (p == .operand)) (hn : p.next d t = some (p', d')) :
    (m.step lookup t).Safe (·.Shaped d' (p' == .operand)) := by
  rcases m with ⟨vs, ps⟩
  obtain ⟨hbar, hseg, hvals⟩ := hm
  cases t with
  | number v literal =>
    by_cases hp : p = .operand
    · simp [Position.next, hp] at hn
    · simp only [Position.next, if_neg hp, Option.some.injEq, Prod.mk.injEq] at hn
      obtain ⟨rfl, rfl⟩ := hn
      refine EvalM.Safe.pure' ⟨hbar, hseg, ?_⟩
      simp [hp] at hvals ⊢
      omega
  | var name =>
    by_cases hp : p = .operand
    · simp [Position.next, hp] at hn
    · simp only [Position.next, if_neg hp, Option.some.injEq, Prod.mk.injEq] at hn
      obtain ⟨rfl, rfl⟩ := hn
      refine EvalM.Safe.bind' (ask_safe lookup name) fun v _ => EvalM.Safe.pure' ⟨hbar, hseg, ?_⟩
      simp [hp] at hvals ⊢
      omega
  | operator o =>
    by_cases hp : p = .operand
    · simp only [Position.next, if_pos hp, Option.some.injEq, Prod.mk.injEq] at hn
      obtain ⟨rfl, rfl⟩ := hn
      refine EvalM.Safe.bind' (hseg.settle lookup o (by simpa [hp] using hvals)) fun q hq => ?_
      obtain ⟨hseg', hlen, hcount⟩ := hq
      rcases q with ⟨vs', ps'⟩
      refine EvalM.Safe.pure' ⟨?_, hseg', ?_⟩
      · simpa [hcount] using hbar
      · simpa using hlen
    · simp [Position.next, hp] at hn
  | openParen =>
    by_cases hp : p = .operand
    · simp [Position.next, hp] at hn
    · simp only [Position.next, if_neg hp, Option.some.injEq, Prod.mk.injEq] at hn
      obtain ⟨rfl, rfl⟩ := hn
      refine EvalM.Safe.pure' ⟨by simpa using hbar, @Segmented.group [] ps trivial hseg, ?_⟩
      simpa [hp] using hvals
  | closeParen =>
    by_cases hp : p = .operand ∧ d ≠ 0
    · simp only [Position.next, if_pos hp, Option.some.injEq, Prod.mk.injEq] at hn
      obtain ⟨rfl, rfl⟩ := hn
      obtain ⟨rfl, hd⟩ := hp
      refine EvalM.Safe.bind' (hseg.closeGroup lookup (by simpa [hbar] using hd)
        (by simpa using hvals)) fun q hq => ?_
      obtain ⟨hseg', hlen, hcount⟩ := hq
      rcases q with ⟨vs', ps'⟩
      refine EvalM.Safe.pure' ⟨?_, hseg', ?_⟩
      · simp only at hcount hbar ⊢
        omega
      · simpa using hlen
    · simp [Position.next, hp] at hn

/-- A whole walk keeps the stacks in the shape that the position and depth after it call for. -/
theorem Shaped.feed (lookup : Lookup) :
    ∀ {ts : List Token} {m : Machine} {s s' : Position × Nat}, m.Shaped s.2 (s.1 == .operand) →
      Position.walk s ts = some s' → (m.feed lookup ts).Safe (·.Shaped s'.2 (s'.1 == .operand))
  | [], m, s, s', hm, hw => by
    rw [Position.walk, Option.some.injEq] at hw
    subst hw
    exact EvalM.Safe.pure' hm
  | t :: ts, m, ⟨p, d⟩, s', hm, hw => by
    obtain ⟨⟨p1, d1⟩, hn, hw⟩ := Option.bind_eq_some_iff.mp hw
    exact EvalM.Safe.bind' (hm.step lookup hn) fun m' hm' => Shaped.feed lookup hm' hw

end Machine

namespace Token

/-- Whether a token opens a group. -/
def opens : Token → Bool
  | openParen => true
  | _ => false

/-- Whether a token closes a group. -/
def closes : Token → Bool
  | closeParen => true
  | _ => false

/-- Whether a token completes an operand: a number, a name or `)`. -/
def completes : Token → Bool
  | number .. | var _ | closeParen => true
  | _ => false

end Token

/-- How many groups some tokens leave open: their `(` less their `)`. -/
def unclosed (ts : List Token) : Nat := ts.countP Token.opens - ts.countP Token.closes

/-- Whether the last of some tokens completes an operand. -/
def endsOperand (ts : List Token) : Bool := ts.getLast?.any Token.completes

/-- One step of the walk counts the groups a token opens and closes, and arrives at an operand
exactly after a token that completes one. -/
theorem Position.next_counts {p p' : Position} {d d' : Nat} {t : Token}
    (hn : p.next d t = some (p', d')) :
    d' + (if t.closes then 1 else 0) = d + (if t.opens then 1 else 0) ∧
      (p' == .operand) = t.completes := by
  cases t with
  | number v l | var x =>
    obtain ⟨rfl, rfl⟩ : p' = .operand ∧ d' = d := by
      simp only [next] at hn
      split at hn <;> simp_all
    simp [Token.closes, Token.opens, Token.completes]
  | operator o =>
    obtain ⟨rfl, rfl⟩ : p' = .operator o ∧ d' = d := by
      simp only [next] at hn
      split at hn <;> simp_all
    simp [Token.closes, Token.opens, Token.completes]
  | openParen =>
    obtain ⟨rfl, rfl⟩ : p' = .opening ∧ d' = d + 1 := by
      simp only [next] at hn
      split at hn <;> simp_all
    simp [Token.closes, Token.opens, Token.completes]
  | closeParen =>
    -- a closing parenthesis needs a group open, and closes it
    obtain ⟨rfl, hd⟩ : p' = .operand ∧ d' + 1 = d := by
      simp only [next] at hn
      split at hn
      · rename_i hopen
        simp only [Option.some.injEq, Prod.mk.injEq] at hn
        obtain ⟨rfl, rfl⟩ := hn
        exact ⟨rfl, by omega⟩
      · cases hn
    simp [Token.closes, Token.opens, Token.completes, hd]

/-- A walk counts the groups its tokens open and close, and ends at an operand exactly when its
last token completes one. -/
theorem Position.walk_counts :
    ∀ {ts : List Token} {p p' : Position} {d d' : Nat}, walk (p, d) ts = some (p', d') →
      d' + ts.countP Token.closes = d + ts.countP Token.opens ∧
        (ts ≠ [] → (p' == .operand) = endsOperand ts)
  | [], p, p', d, d', hw => by
    simp only [walk, Option.some.injEq, Prod.mk.injEq] at hw
    obtain ⟨rfl, rfl⟩ := hw
    simp
  | t :: ts, p, p', d, d', hw => by
    obtain ⟨⟨p1, d1⟩, hn, hw⟩ := Option.bind_eq_some_iff.mp hw
    obtain ⟨hd, hop⟩ := next_counts hn
    obtain ⟨hd', hop'⟩ := walk_counts hw
    refine ⟨?_, fun _ => ?_⟩
    · simp only [List.countP_cons]
      omega
    · cases ts with
      | nil =>
        simp only [walk, Option.some.injEq, Prod.mk.injEq] at hw
        obtain ⟨rfl, rfl⟩ := hw
        simp [hop, endsOperand]
      | cons t' ts => simpa [endsOperand] using hop' (by simp)

open Machine in
/-- On every formula and for every lookup, the machine keeps its stacks in shape after each
token: a barrier per group still open, segments of at most one multiplicative operator above at
most one additive one, and a value per pending operator, one more after a completed operand.
Hence it never gets stuck: every operator finds two values, every `)` its barrier, and the end
finds no barrier and leaves a single value. -/
theorem evaluate_stacks_shaped {s : String} {f : Formula} (h : Formula.parse s = .ok f)
    (lookup : Lookup) :
    (∀ (n : Nat) (r r' : Array String) (m : Machine),
        ((ExceptT.run (Machine.empty.feed lookup (f.tokens.take n))).run r).run = (.ok m, r') →
        m.Shaped (unclosed (f.tokens.take n)) (endsOperand (f.tokens.take n))) ∧
      ∀ r : Array String, (((ExceptT.run (f.evaluate lookup)).run r).run).1 ≠ .error .stuck := by
  have hwalk := Formula.walk_of_parse h
  have hempty : Machine.empty.Shaped 0 false := ⟨rfl, @Segmented.top [] trivial, rfl⟩
  refine ⟨fun n r r' m hrun => ?_, fun r => ?_⟩
  · rw [← List.take_append_drop n f.tokens, Position.walk_append] at hwalk
    obtain ⟨⟨p, d⟩, hpre, -⟩ := Option.bind_eq_some_iff.mp hwalk
    have hm := (Shaped.feed lookup (s := (.opening, 0)) hempty hpre).of_run_ok hrun
    obtain ⟨hd, hp⟩ := Position.walk_counts hpre
    have hd' : d = unclosed (f.tokens.take n) := by
      simp only [unclosed]
      omega
    have hp' : (p == .operand) = endsOperand (f.tokens.take n) := by
      by_cases hnil : f.tokens.take n = []
      · rw [hnil, Position.walk, Option.some.injEq, Prod.mk.injEq] at hpre
        obtain ⟨rfl, rfl⟩ := hpre
        simp [endsOperand, hnil]
      · exact hp hnil
    rw [← hd', ← hp']
    exact hm
  · have hfeed := Shaped.feed lookup (s := (.opening, 0)) hempty hwalk
    have hsafe : (f.evaluate lookup).Safe (fun _ => True) := by
      unfold Formula.evaluate
      refine hfeed.bind' fun m hm => ?_
      refine (hm.segmented.drain lookup hm.barriers (by simpa using hm.values)).bind' fun vs hvs => ?_
      rcases vs with _ | ⟨v, _ | ⟨w, vs⟩⟩
      · simp at hvs
      · exact EvalM.Safe.pure' trivial
      · simp at hvs
    exact hsafe.run_ne_stuck r

/-- `(a-b)/c` is a formula, and with every name worth two its stacks keep their shape and its
evaluation never gets stuck. -/
theorem evaluate_stacks_shaped_quotient :
    Formula.parse "(a-b)/c" = .ok ⟨[.openParen, .var "a", .operator .minus, .var "b", .closeParen,
        .operator .slash, .var "c"]⟩ ∧
      (∀ (n : Nat) (r r' : Array String) (m : Machine),
        ((ExceptT.run (Machine.empty.feed (fun _ => some 2) (List.take n [.openParen, .var "a",
          .operator .minus, .var "b", .closeParen, .operator .slash, .var "c"]))).run r).run =
            (.ok m, r') →
        m.Shaped (unclosed (List.take n [.openParen, .var "a", .operator .minus, .var "b",
            .closeParen, .operator .slash, .var "c"]))
          (endsOperand (List.take n [.openParen, .var "a", .operator .minus, .var "b",
            .closeParen, .operator .slash, .var "c"]))) ∧
      ∀ r : Array String, (((ExceptT.run (Formula.evaluate ⟨[.openParen, .var "a",
        .operator .minus, .var "b", .closeParen, .operator .slash, .var "c"]⟩
          (fun _ => some 2))).run r).run).1 ≠ .error .stuck := by
  have hparse : Formula.parse "(a-b)/c" = .ok ⟨[.openParen, .var "a", .operator .minus,
      .var "b", .closeParen, .operator .slash, .var "c"]⟩ := by
    rw [Formula.parse, lex_eq_lexWithin]
    rfl
  exact ⟨hparse, evaluate_stacks_shaped hparse (fun _ => some 2)⟩

end Formulas
