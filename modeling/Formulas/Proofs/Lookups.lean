import Formulas.Evaluation.Machine
/-!
# The names an evaluation looks up

A formula's variables are its distinct names in order of first appearance, found by a scan of its
tokens of its own. The evaluation machine asks the lookup for a name at each variable occurrence,
in between applying operators that may fail and stop it. The two views agree: what the machine
asks for, up to any point where it stops, is the list of variable occurrences up to some token.
So every name it asks for is a variable of the formula, the names asked for with repeats left out
are the first few variables, and all of them when the evaluation gives a value.

`EvalM.Asks x ns` says how a computation adds to the record of names asked for. One lemma per
function of the machine gives its names, and the run over the tokens follows by induction.
Main statement: `Formula.evaluate_asks_variableNames`.
-/

namespace Formulas

/-- Every way `x` can end, from a record `r` of names asked for, leaves `r` followed by names of
`ns`: all of them when it ends with a result, the first few when it fails. -/
def EvalM.Asks {α : Type} (x : EvalM α) (ns : List String) : Prop :=
  ∀ r, match ((ExceptT.run x).run r).run with
    | (.ok _, r') => r'.toList = r.toList ++ ns
    | (.error _, r') => ∃ k, r'.toList = r.toList ++ ns.take k

namespace EvalM.Asks

variable {α β : Type} {ns ms : List String}

theorem pure' (a : α) : Asks (pure a) [] := by
  intro r
  simp

theorem throw' (e : EvalError) : Asks (throw e : EvalM α) [] := by
  intro r
  exact ⟨0, by simp⟩

/-- A computation followed by another asks for the names of the first, then those of the second;
a failure in the first asks for nothing after it. -/
theorem bind' {x : EvalM α} {f : α → EvalM β} (hx : Asks x ns) (hf : ∀ a, Asks (f a) ms) :
    Asks (x >>= f) (ns ++ ms) := by
  intro r
  have hr := hx r
  simp only [ExceptT.run_bind, StateT.run_bind, Id.run_bind]
  rcases hrun : ((ExceptT.run x).run r).run with ⟨res, r'⟩
  rw [hrun] at hr
  cases res with
  | error e =>
    obtain ⟨k, hk⟩ := hr
    refine ⟨min k ns.length, ?_⟩
    rw [List.take_append_of_le_length (Nat.min_le_right _ _), ← List.take_eq_take_min, hk]
  | ok a =>
    have hf' := hf a r'
    simp only at hr
    rcases hrun' : ((ExceptT.run (f a)).run r').run with ⟨res', r''⟩
    rw [hrun'] at hf'
    cases res' with
    | ok b =>
      simp only at hf' ⊢
      rw [hf', hr, List.append_assoc]
    | error e =>
      obtain ⟨k, hk⟩ := hf'
      refine ⟨ns.length + k, ?_⟩
      rw [hk, hr, List.take_append, List.take_of_length_le (Nat.le_add_right ns.length k),
        Nat.add_sub_cancel_left, List.append_assoc]

theorem congr {x : EvalM α} (hx : Asks x ns) (h : ns = ms) : Asks x ms := h ▸ hx

end EvalM.Asks

open EvalM

/-- Asking for a name records it, whether the lookup knows it or not. -/
theorem ask_asks (lookup : Lookup) (name : String) : (ask lookup name).Asks [name] := by
  have hmodify : (modify (·.push name) : EvalM Unit).Asks [name] := by
    intro r
    have hrun : ((ExceptT.run (modify (·.push name) : EvalM Unit)).run r).run =
        (.ok (), r.push name) := rfl
    rw [hrun]
    exact Array.toList_push
  unfold ask
  refine (hmodify.bind' fun _ => ?_).congr (List.append_nil _)
  cases lookup name with
  | some v => exact Asks.pure' v
  | none => exact Asks.throw' _

theorem perform_asks (o : Operator) (a b : Float) : (o.perform a b).Asks [] := by
  unfold Operator.perform
  split
  · exact Asks.throw' _
  · exact Asks.pure' _

namespace Machine

theorem applyTop_asks (o : Operator) (vs : List Float) : (applyTop o vs).Asks [] := by
  unfold applyTop
  split
  · exact ((perform_asks _ _ _).bind' fun _ => Asks.pure' _).congr rfl
  · exact Asks.throw' _

theorem settle_asks (o : Operator) (vs : List Float) (ps : List Pending) :
    (settle o vs ps).Asks [] := by
  induction ps generalizing vs with
  | nil => exact Asks.pure' _
  | cons p rest ih =>
    cases p with
    | barrier => exact Asks.pure' _
    | operator top =>
      unfold settle
      split
      · exact ((applyTop_asks top vs).bind' fun vs' => ih vs').congr rfl
      · exact Asks.pure' _

theorem closeGroup_asks (vs : List Float) (ps : List Pending) : (closeGroup vs ps).Asks [] := by
  induction ps generalizing vs with
  | nil => exact Asks.throw' _
  | cons p rest ih =>
    cases p with
    | barrier => exact Asks.pure' _
    | operator top => exact ((applyTop_asks top vs).bind' fun vs' => ih vs').congr rfl

theorem drain_asks (vs : List Float) (ps : List Pending) : (drain vs ps).Asks [] := by
  induction ps generalizing vs with
  | nil => exact Asks.pure' _
  | cons p rest ih =>
    cases p with
    | barrier => exact Asks.throw' _
    | operator top => exact ((applyTop_asks top vs).bind' fun vs' => ih vs').congr rfl

/-- A step asks for the name of a variable token, and for nothing at any other token. -/
theorem step_asks (lookup : Lookup) (m : Machine) (t : Token) :
    (m.step lookup t).Asks t.name?.toList := by
  cases t with
  | number v literal => exact Asks.pure' _
  | var name => exact ((ask_asks lookup name).bind' fun _ => Asks.pure' _).congr rfl
  | operator o => exact ((settle_asks o _ _).bind' fun _ => Asks.pure' _).congr rfl
  | openParen => exact Asks.pure' _
  | closeParen => exact ((closeGroup_asks _ _).bind' fun _ => Asks.pure' _).congr rfl

/-- Feeding tokens asks for the names of their variable occurrences, in order. -/
theorem feed_asks (lookup : Lookup) (m : Machine) (ts : List Token) :
    (m.feed lookup ts).Asks (ts.filterMap Token.name?) := by
  induction ts generalizing m with
  | nil => exact Asks.pure' _
  | cons t ts ih =>
    refine ((step_asks lookup m t).bind' fun m' => ih m').congr ?_
    cases t <;> rfl

end Machine

namespace Formula

/-- Evaluating a formula asks for the names of its variable occurrences, in order: the last steps
apply operators and ask for nothing. -/
theorem evaluate_asks (f : Formula) (lookup : Lookup) :
    (f.evaluate lookup).Asks (f.tokens.filterMap Token.name?) := by
  unfold Formula.evaluate
  refine ((Machine.feed_asks lookup _ _).bind' fun m => ?_).congr (List.append_nil _)
  refine ((Machine.drain_asks _ _).bind' fun vs => ?_).congr rfl
  split
  · exact Asks.pure' _
  · exact Asks.throw' _

/-- The names an evaluation asks for are the variable occurrences of the formula up to some
point, and all of them when it gives a value. -/
theorem evaluate_asked (f : Formula) (lookup : Lookup) :
    ∃ k, ((f.evaluate lookup).run').2 = (f.tokens.filterMap Token.name?).take k ∧
      ∀ v, ((f.evaluate lookup).run').1 = .ok v →
        ((f.evaluate lookup).run').2 = f.tokens.filterMap Token.name? := by
  have h := f.evaluate_asks lookup #[]
  unfold EvalM.run'
  rcases hrun : ((ExceptT.run (f.evaluate lookup)).run #[]).run with ⟨res, r'⟩
  have hrun' : (ExceptT.run (f.evaluate lookup)).run #[] = (res, r') := hrun
  rw [hrun] at h
  rw [hrun']
  cases res with
  | ok v =>
    have hr : r'.toList = f.tokens.filterMap Token.name? := h
    exact ⟨(f.tokens.filterMap Token.name?).length, by simp [hr], fun _ _ => hr⟩
  | error e =>
    obtain ⟨k, hk⟩ := h
    exact ⟨k, hk, fun v hv => by cases hv⟩

/-! ## First occurrences -/

theorem prefix_foldl_firstOccurrences (acc xs : List String) :
    acc <+: xs.foldl (fun seen x => if seen.contains x then seen else seen ++ [x]) acc := by
  induction xs generalizing acc with
  | nil => exact List.prefix_refl acc
  | cons x xs ih =>
    rw [List.foldl_cons]
    split
    · exact ih acc
    · exact (List.prefix_append acc [x]).trans (ih _)

theorem mem_foldl_firstOccurrences (acc xs : List String) (y : String) :
    y ∈ xs.foldl (fun seen x => if seen.contains x then seen else seen ++ [x]) acc ↔
      y ∈ acc ∨ y ∈ xs := by
  induction xs generalizing acc with
  | nil => simp
  | cons x xs ih =>
    rw [List.foldl_cons, ih]
    split
    · -- a name seen before adds nothing
      next h =>
      have hx : x ∈ acc := List.contains_iff_mem.mp h
      constructor
      · rintro (hy | hy)
        · exact .inl hy
        · exact .inr (List.mem_cons_of_mem x hy)
      · rintro (hy | hy)
        · exact .inl hy
        · rcases List.mem_cons.mp hy with rfl | hy
          · exact .inl hx
          · exact .inr hy
    · simp [or_assoc]

/-- Leaving out repeats keeps prefixes. -/
theorem firstOccurrences_prefix {xs ys : List String} (h : xs <+: ys) :
    firstOccurrences xs <+: firstOccurrences ys := by
  obtain ⟨t, rfl⟩ := h
  unfold firstOccurrences
  rw [List.foldl_append]
  exact prefix_foldl_firstOccurrences _ _

theorem mem_firstOccurrences {xs : List String} {y : String} :
    y ∈ firstOccurrences xs ↔ y ∈ xs := by
  unfold firstOccurrences
  rw [mem_foldl_firstOccurrences]
  simp

/-- Every name an evaluation asks the lookup for is a variable of the formula. The names asked
for, with repeats left out, are the first few variables in order of first appearance, and all of
them when the evaluation gives a value. -/
theorem evaluate_asks_variableNames (f : Formula) (lookup : Lookup) :
    (∀ x ∈ ((f.evaluate lookup).run').2, x ∈ f.variableNames) ∧
      firstOccurrences ((f.evaluate lookup).run').2 <+: f.variableNames ∧
      ∀ v, ((f.evaluate lookup).run').1 = .ok v →
        firstOccurrences ((f.evaluate lookup).run').2 = f.variableNames := by
  obtain ⟨k, hk, hok⟩ := f.evaluate_asked lookup
  have hpre : ((f.evaluate lookup).run').2 <+: f.tokens.filterMap Token.name? :=
    hk ▸ List.take_prefix _ _
  refine ⟨fun x hx => ?_, firstOccurrences_prefix hpre, fun v hv => by rw [hok v hv]; rfl⟩
  exact mem_firstOccurrences.mpr (hpre.subset hx)

/-- A division by zero stops the evaluation before the second `x` and before `z`. -/
example : ((Formula.evaluate ⟨[.var "x", .operator .slash, .var "y", .operator .plus, .var "x",
    .operator .plus, .var "z"]⟩ fun n => if n = "z" then none else some 0).run').2 = ["x", "y"] := by
  rfl

end Formula

end Formulas
