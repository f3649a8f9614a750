import Mathlib.Logic.Relation
import Mathlib.Tactic.SplitIfs
import Formulas.Bindings.Read
/-!
# Tables of bindings stay well formed

A caller changes its table in three ways: `define` binds one name after checking the name and
the value, a bindings text read whole replaces the table, and `extend` puts in bindings without
any check. A caller passes `extend` only bindings read from binding texts, and reading one checks
the same two things as `define`. So every table reached from the empty one binds variable names
only, each to a finite value.

A table is seen through `get?`. Inserting a name, and so a successful `define`, gives that name
its new value and leaves every other name as it was, whether or not the entries are in order;
extending gives each name the value of the last binding of it.

Main statement: `wellFormed_of_changes`.
-/

namespace Formulas.Bindings

/-! ## The view of a table -/

theorem find?_insertEntry (n m : String) (v : Float) (es : List (String × Float)) :
    (insertEntry n v es).find? (fun e => e.1 == m) =
      if n = m then some (n, v) else es.find? (fun e => e.1 == m) := by
  induction es with
  | nil => by_cases h : n = m <;> simp [insertEntry, h]
  | cons e rest ih =>
    obtain ⟨k, w⟩ := e
    by_cases hlt : n < k
    · -- the new entry goes in front
      simp only [insertEntry, if_pos hlt]
      by_cases hnm : n = m
      · simp [hnm]
      · simp [List.find?_cons, hnm]
    by_cases hnk : n = k
    · -- the entry of the same name is replaced
      subst hnk
      simp only [insertEntry, if_neg hlt, if_true]
      by_cases hnm : n = m
      · simp [hnm]
      · simp [hnm]
    · -- the entry passed over has another name, so it is found only when asked for
      simp only [insertEntry, if_neg hlt, if_neg hnk, List.find?_cons, ih]
      by_cases hkm : k = m
      · have hnm : n ≠ m := fun h => hnk (h.trans hkm.symm)
        simp only [beq_iff_eq.mpr hkm, hnm, if_false]
      · simp only [beq_false_of_ne hkm]

/-- Inserting a name gives it the new value and keeps the value of every other name. -/
@[simp] theorem get?_insert (b : Bindings) (n m : String) (v : Float) :
    (b.insert n v).get? m = if n = m then some v else b.get? m := by
  simp only [get?, insert, find?_insertEntry]
  split_ifs <;> rfl

/-- The value that the last of some bindings to bind a name gives it. -/
def lastValue? (bs : List Binding) (name : String) : Option Float :=
  (bs.reverse.find? fun x => x.name == name).map (·.value)

theorem lastValue?_cons (x : Binding) (bs : List Binding) (name : String) :
    lastValue? (x :: bs) name =
      (lastValue? bs name).or (if x.name = name then some x.value else none) := by
  simp only [lastValue?, List.reverse_cons, List.find?_append]
  cases bs.reverse.find? (fun x => x.name == name) with
  | some y => rfl
  | none => by_cases h : x.name = name <;> simp [h]

/-- Extending a table gives each name the value of the last binding of it, and keeps the value
of every name it does not bind. -/
theorem get?_extend (b : Bindings) (bs : List Binding) (m : String) :
    (b.extend bs).get? m = (lastValue? bs m).or (b.get? m) := by
  induction bs generalizing b with
  | nil => rfl
  | cons x bs ih =>
    have hstep : b.extend (x :: bs) = (b.insert x.name x.value).extend bs := rfl
    rw [hstep, ih, get?_insert, lastValue?_cons, Option.or_assoc]
    by_cases h : x.name = m <;> simp [h]

theorem mem_insertEntry {n : String} {v : Float} {e : String × Float} :
    ∀ {es : List (String × Float)}, e ∈ insertEntry n v es → e = (n, v) ∨ e ∈ es
  | [], h => by simpa [insertEntry] using h
  | (k, w) :: rest, h => by
    simp only [insertEntry] at h
    split_ifs at h
    · simpa using h
    · rcases List.mem_cons.mp h with h | h
      · exact .inl h
      · exact .inr (List.mem_cons_of_mem _ h)
    · rcases List.mem_cons.mp h with h | h
      · exact .inr (h ▸ List.mem_cons_self)
      · rcases mem_insertEntry h with h | h
        · exact .inl h
        · exact .inr (List.mem_cons_of_mem _ h)

/-- `define` succeeds exactly on a variable name and a finite value, and then inserts. -/
theorem define_eq_ok_iff {b b' : Bindings} {name : String} {v : Float} :
    b.define name v = .ok b' ↔
      isVariableName name = true ∧ Decimal.isFiniteValue v = true ∧ b' = b.insert name v := by
  unfold define
  cases hn : isVariableName name <;> cases hv : Decimal.isFiniteValue v <;>
    simp [eq_comm]

/-! ## Well-formed tables -/

/-- Every entry of the table binds a variable name to a finite value. -/
structure WellFormed (b : Bindings) : Prop where
  names : ∀ e ∈ b.entries, isVariableName e.1 = true
  values : ∀ e ∈ b.entries, Decimal.isFiniteValue e.2 = true

theorem wellFormed_empty : empty.WellFormed :=
  ⟨fun _ h => absurd h List.not_mem_nil, fun _ h => absurd h List.not_mem_nil⟩

theorem WellFormed.insert {b : Bindings} (hb : b.WellFormed) {name : String} {v : Float}
    (hn : isVariableName name = true) (hv : Decimal.isFiniteValue v = true) :
    (b.insert name v).WellFormed := by
  constructor
  · intro e he
    rcases mem_insertEntry he with rfl | he
    · exact hn
    · exact hb.names e he
  · intro e he
    rcases mem_insertEntry he with rfl | he
    · exact hv
    · exact hb.values e he

/-- A binding read from text has a variable name and a finite value. -/
theorem Binding.read_valid {s : String} {x : Binding} (h : Binding.read s = .ok x) :
    isVariableName x.name = true ∧ Decimal.isFiniteValue x.value = true := by
  unfold Binding.read at h
  dsimp only at h
  split at h
  · cases h
  · split_ifs at h with hn
    split at h
    · split_ifs at h with hv
      cases h
      exact ⟨by simpa using hn, hv⟩
    · cases h

theorem WellFormed.extend {b : Bindings} (hb : b.WellFormed) {bs : List Binding}
    (hbs : ∀ x ∈ bs, isVariableName x.name = true ∧ Decimal.isFiniteValue x.value = true) :
    (b.extend bs).WellFormed := by
  induction bs generalizing b with
  | nil => exact hb
  | cons x bs ih =>
    have hx := hbs x List.mem_cons_self
    exact ih (hb.insert hx.1 hx.2) fun y hy => hbs y (List.mem_cons_of_mem x hy)

/-- Reading lines into a well-formed table gives a well-formed table. -/
theorem readLines_wellFormed {acc b : Bindings} {n : Nat} {ls : List (List Char)}
    (hacc : acc.WellFormed) (h : readLines acc n ls = .ok b) : b.WellFormed := by
  induction ls generalizing acc n with
  | nil =>
    simp only [readLines, Except.ok.injEq] at h
    exact h ▸ hacc
  | cons l ls ih =>
    simp only [readLines] at h
    split_ifs at h
    · exact ih hacc h
    · split at h
      · cases h
      · next x hx =>
        have hvalid := Binding.read_valid hx
        exact ih (hacc.insert hvalid.1 hvalid.2) h

theorem read_wellFormed {text : String} {b : Bindings} (h : read text = .ok b) : b.WellFormed :=
  readLines_wellFormed wellFormed_empty h

/-! ## Changes a caller makes -/

/-- One change a caller makes to the table it holds. -/
inductive Change : Bindings → Bindings → Prop
  /-- `define` succeeded and gave the new table. -/
  | define {b b' : Bindings} {name : String} {v : Float} :
      b.define name v = .ok b' → Change b b'
  /-- `define` refused: it gives an error and no table, so the caller keeps the one it had. -/
  | refuse {b : Bindings} {name : String} {v : Float} {e : BindingError} :
      b.define name v = .error e → Change b b
  /-- A table read from a bindings text replaces the table. -/
  | replace {b b' : Bindings} {text : String} : read text = .ok b' → Change b b'
  /-- Bindings, each read from a binding text, are put in. -/
  | extend {b : Bindings} {bs : List Binding} :
      (∀ x ∈ bs, ∃ s, Binding.read s = .ok x) → Change b (b.extend bs)

/-- Every change keeps a table well formed. -/
theorem Change.wellFormed {b b' : Bindings} (h : Change b b') (hb : b.WellFormed) :
    b'.WellFormed := by
  cases h with
  | define h =>
    obtain ⟨hn, hv, rfl⟩ := define_eq_ok_iff.mp h
    exact hb.insert hn hv
  | refuse => exact hb
  | replace h => exact read_wellFormed h
  | extend hbs =>
    refine hb.extend fun x hx => ?_
    obtain ⟨s, hs⟩ := hbs x hx
    exact Binding.read_valid hs

/-- Every table reached from the empty one is well formed. -/
theorem reachable_wellFormed {b : Bindings} (h : Relation.ReflTransGen Change empty b) :
    b.WellFormed := by
  induction h with
  | refl => exact wellFormed_empty
  | tail _ hstep ih => exact hstep.wellFormed ih

/-- A successful `define` gives its name the value and changes no other name. -/
theorem define_get? {b b' : Bindings} {name : String} {v : Float} (h : b.define name v = .ok b') :
    b'.get? name = some v ∧ ∀ m, m ≠ name → b'.get? m = b.get? m := by
  obtain ⟨-, -, rfl⟩ := define_eq_ok_iff.mp h
  refine ⟨by simp, fun m hm => ?_⟩
  rw [get?_insert, if_neg (Ne.symm hm)]

/-- Through any sequence of successful or refused `define` calls, tables read whole from
bindings texts, and `extend` calls with bindings read from binding texts, a table that starts
empty binds only variable names, each to a finite value. A refused `define` keeps the table; a
successful `define name v` gives `name` the value `v` and keeps the value of every other name. -/
theorem wellFormed_of_changes :
    (∀ b, Relation.ReflTransGen Change empty b →
      (∀ e ∈ b.entries, isVariableName e.1 = true) ∧
        ∀ e ∈ b.entries, Decimal.isFiniteValue e.2 = true) ∧
      ∀ (b b' : Bindings) (name : String) (v : Float), b.define name v = .ok b' →
        b'.get? name = some v ∧ ∀ m, m ≠ name → b'.get? m = b.get? m := by
  refine ⟨fun b h => ?_, fun b b' name v h => define_get? h⟩
  have hb := reachable_wellFormed h
  exact ⟨hb.names, hb.values⟩

/-- Defining `x` as `2.5` in the empty table and then putting in `y = 3`, read from text,
reaches a table of variable names and finite values; the definition gives `x` its value and
leaves every other name unbound. -/
theorem wellFormed_of_changes_define_extend :
    Relation.ReflTransGen Change empty
        ((empty.insert "x" 2.5).extend [⟨"y", Decimal.toFloat ⟨3, 0⟩⟩]) ∧
      ((∀ e ∈ ((empty.insert "x" 2.5).extend [⟨"y", Decimal.toFloat ⟨3, 0⟩⟩]).entries,
          isVariableName e.1 = true) ∧
        ∀ e ∈ ((empty.insert "x" 2.5).extend [⟨"y", Decimal.toFloat ⟨3, 0⟩⟩]).entries,
          Decimal.isFiniteValue e.2 = true) ∧
      empty.define "x" 2.5 = .ok (empty.insert "x" 2.5) ∧
      (empty.insert "x" 2.5).get? "x" = some 2.5 ∧
        ∀ m, m ≠ "x" → (empty.insert "x" 2.5).get? m = empty.get? m := by
  have hdef : empty.define "x" 2.5 = .ok (empty.insert "x" 2.5) := rfl
  have hread : Binding.read "y = 3" = .ok ⟨"y", Decimal.toFloat ⟨3, 0⟩⟩ := rfl
  have hreach : Relation.ReflTransGen Change empty
      ((empty.insert "x" 2.5).extend [⟨"y", Decimal.toFloat ⟨3, 0⟩⟩]) := by
    refine (Relation.ReflTransGen.single (Change.define hdef)).tail (Change.extend ?_)
    intro x hx
    rw [List.mem_singleton.mp hx]
    exact ⟨"y = 3", hread⟩
  exact ⟨hreach, wellFormed_of_changes.1 _ hreach, hdef, wellFormed_of_changes.2 _ _ _ _ hdef⟩

end Formulas.Bindings
