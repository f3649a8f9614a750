import Mathlib.Data.Finset.Card
import Formulas.Proofs.EvalCommand
/-!
# Reading a bindings text

A bindings text is read line by line. A line says what stands before its first `#`, without
blanks at the ends; a line that says nothing is passed over, and any other line must read as a
binding. The reading stops at the first line that does not, with that line's number counted over
all lines, blank and comment lines included. When every line passes, each binding read goes into
a table that starts empty, a later one replacing an earlier one of the same name.

Reading fails exactly when some line is refused, and then reports the first refused line
(`readLines_eq_error_iff`, `exists_first_refuses`). When none is, the lines state bindings
(`LinesBind`, read in `Proofs/EvalCommand.lean`) and the table gives each name the value of the
last of them. The table keeps its entries in strictly increasing order of names, so it holds
one entry per distinct name bound (`size_empty_extend`). Main statement: `read_outcome`.
-/

namespace Formulas.Bindings

/-! ## Refused lines -/

/-- A line is refused with `e`: what it says is not empty and does not read as a binding. -/
def Refuses (l : List Char) (e : BindingError) : Prop :=
  (content l).isEmpty = false ∧ Binding.read (String.ofList (content l)) = .error e

/-- A line no reason refuses says nothing, or says a binding. -/
theorem not_refuses_iff {l : List Char} :
    (∀ e, ¬Refuses l e) ↔
      (content l).isEmpty = true ∨ ∃ x, Binding.read (String.ofList (content l)) = .ok x := by
  cases hc : (content l).isEmpty
  · cases hx : Binding.read (String.ofList (content l)) with
    | error e => simp [Refuses, hc, hx]
    | ok x => simp [Refuses, hc, hx]
  · simp [Refuses, hc]

/-- A refused line stops the reading, with its number. -/
theorem readLines_cons_of_refuses {acc : Bindings} {n : Nat} {l : List Char}
    {ls : List (List Char)} {e : BindingError} (hl : Refuses l e) :
    readLines acc n (l :: ls) = .error (.line n e) := by
  obtain ⟨hc, hx⟩ := hl
  simp [readLines, hc, hx]

/-- After a line that passes, the reading goes on with the next line, into some table. -/
theorem readLines_cons_of_passes {acc : Bindings} {n : Nat} {l : List Char}
    {ls : List (List Char)} (hl : ∀ e, ¬Refuses l e) :
    ∃ acc', readLines acc n (l :: ls) = readLines acc' (n + 1) ls := by
  cases hc : (content l).isEmpty
  · obtain ⟨x, hx⟩ := (not_refuses_iff.mp hl).resolve_left (by simp [hc])
    exact ⟨acc.insert x.name x.value, by simp [readLines, hc, hx]⟩
  · exact ⟨acc, by simp [readLines, hc]⟩

/-- Reading lines numbered from `n` fails exactly at a refused line all of whose predecessors
passed, with that line's number and the reason it was refused. -/
theorem readLines_eq_error_iff {acc : Bindings} {n : Nat} {ls : List (List Char)}
    {e : BindingError} :
    readLines acc n ls = .error e ↔ ∃ pre l post e', ls = pre ++ l :: post ∧
      (∀ l' ∈ pre, ∀ e'', ¬Refuses l' e'') ∧ Refuses l e' ∧ e = .line (pre.length + n) e' := by
  induction ls generalizing acc n with
  | nil =>
    simp only [readLines, reduceCtorEq, false_iff, not_exists, not_and]
    intro pre l post _ h
    exact absurd h.symm (by simp)
  | cons l ls ih =>
    constructor
    · intro h
      by_cases hl : ∃ e', Refuses l e'
      · -- the first line is refused: the reading stops there
        obtain ⟨e', he'⟩ := hl
        rw [readLines_cons_of_refuses he'] at h
        cases h
        exact ⟨[], l, ls, e', rfl, by simp, he', by simp⟩
      · -- the first line passes, and the reading of the rest fails
        have hpass : ∀ e', ¬Refuses l e' := fun e' h => hl ⟨e', h⟩
        obtain ⟨acc', hacc⟩ := @readLines_cons_of_passes acc n l ls hpass
        obtain ⟨pre, l', post, e', hls, hpre, hl', he⟩ := ih.mp (hacc ▸ h)
        refine ⟨l :: pre, l', post, e', by rw [hls]; rfl, ?_, hl', by rw [he]; simp; omega⟩
        intro l'' hl'' e''
        rcases List.mem_cons.mp hl'' with rfl | hl''
        · exact hpass e''
        · exact hpre l'' hl'' e''
    · rintro ⟨pre, l', post, e', hls, hpre, hl', rfl⟩
      cases pre with
      | nil =>
        obtain ⟨rfl, -⟩ := List.cons.inj hls
        rw [readLines_cons_of_refuses hl', List.length_nil, Nat.zero_add]
      | cons p pre =>
        rw [List.cons_append] at hls
        obtain ⟨rfl, hrest⟩ := List.cons.inj hls
        obtain ⟨acc', hacc⟩ := @readLines_cons_of_passes acc n l ls (hpre l List.mem_cons_self)
        rw [hacc]
        exact ih.mpr ⟨pre, l', post, e', hrest,
          fun l'' h => hpre l'' (List.mem_cons_of_mem _ h), hl', by simp; omega⟩

/-- Where some line is refused, a first one is. -/
theorem exists_first_refuses : ∀ {ls : List (List Char)}, (∃ l ∈ ls, ∃ e, Refuses l e) →
    ∃ pre l post e, ls = pre ++ l :: post ∧ (∀ l' ∈ pre, ∀ e', ¬Refuses l' e') ∧ Refuses l e
  | [], h => by simp at h
  | l :: ls, h => by
    by_cases hl : ∃ e, Refuses l e
    · obtain ⟨e, he⟩ := hl
      exact ⟨[], l, ls, e, rfl, by simp, he⟩
    · obtain ⟨l', hl', e', he'⟩ := h
      rcases List.mem_cons.mp hl' with rfl | hl'
      · exact absurd ⟨e', he'⟩ hl
      obtain ⟨pre, l'', post, e, hls, hpre, he⟩ := exists_first_refuses ⟨l', hl', e', he'⟩
      refine ⟨l :: pre, l'', post, e, by rw [hls]; rfl, fun x hx e'' => ?_, he⟩
      rcases List.mem_cons.mp hx with rfl | hx
      · exact fun h => hl ⟨e'', h⟩
      · exact hpre x hx e''

/-- Lines none of which is refused state bindings. -/
theorem linesBind_of_not_refuses : ∀ {ls : List (List Char)}, (∀ l ∈ ls, ∀ e, ¬Refuses l e) →
    ∃ bs, LinesBind ls bs
  | [], _ => ⟨[], .nil⟩
  | l :: ls, h => by
    obtain ⟨bs, hbs⟩ := linesBind_of_not_refuses fun l' hl' => h l' (List.mem_cons_of_mem l hl')
    cases hc : (content l).isEmpty
    · obtain ⟨x, hx⟩ := (not_refuses_iff.mp (h l List.mem_cons_self)).resolve_left (by simp [hc])
      exact ⟨x :: bs, .bind hc hx hbs⟩
    · exact ⟨bs, .skip hc hbs⟩

/-! ## The size of a table -/

/-- The entries are in strictly increasing order of names. -/
def Sorted (es : List (String × Float)) : Prop := es.Pairwise fun a b => a.1 < b.1

theorem Sorted.insertEntry (n : String) (v : Float) :
    ∀ {es : List (String × Float)}, Sorted es → Sorted (insertEntry n v es)
  | [], _ => List.pairwise_singleton _ _
  | (k, w) :: rest, h => by
    obtain ⟨hk, hrest⟩ := List.pairwise_cons.mp h
    simp only [Bindings.insertEntry]
    split_ifs with hlt heq
    · refine List.Pairwise.cons (fun e he => ?_) h
      rcases List.mem_cons.mp he with rfl | he
      · exact hlt
      · exact String.lt_trans hlt (hk e he)
    · subst heq
      exact List.Pairwise.cons hk hrest
    · -- the entry passed over has a smaller name
      have hkn : k < n := String.not_le.mp fun hle => heq (String.le_antisymm hle (String.not_lt.mp hlt))
      refine List.Pairwise.cons (fun e he => ?_) (Sorted.insertEntry n v hrest)
      rcases mem_insertEntry he with rfl | he
      · exact hkn
      · exact hk e he

theorem sorted_extend {b : Bindings} (hb : Sorted b.entries) (bs : List Binding) :
    Sorted (b.extend bs).entries := by
  induction bs generalizing b with
  | nil => exact hb
  | cons x bs ih => exact ih (Sorted.insertEntry x.name x.value hb)

theorem mem_names_iff (b : Bindings) (m : String) :
    m ∈ b.entries.map (·.1) ↔ (b.get? m).isSome := by
  simp [get?, List.find?_isSome]

theorem lastValue?_isSome_iff (bs : List Binding) (m : String) :
    (lastValue? bs m).isSome ↔ m ∈ bs.map (·.name) := by
  simp [lastValue?, List.find?_isSome]

/-- A table built up from empty holds one entry per distinct name bound. -/
theorem size_empty_extend (bs : List Binding) :
    (empty.extend bs).size = (bs.map (·.name)).toFinset.card := by
  have hsorted := sorted_extend (b := empty) List.Pairwise.nil bs
  have hnodup : ((empty.extend bs).entries.map (·.1)).Nodup :=
    (List.pairwise_map.mpr hsorted).imp String.ne_of_lt
  have hnames : ((empty.extend bs).entries.map (·.1)).toFinset = (bs.map (·.name)).toFinset := by
    ext m
    rw [List.mem_toFinset, List.mem_toFinset, mem_names_iff, get?_extend, ← lastValue?_isSome_iff]
    simp [show empty.get? m = none from rfl]
  rw [size, ← hnames, List.toFinset_card_of_nodup hnodup, List.length_map]

/-- Reading a bindings text fails exactly when some line is refused, and then with the number,
counted from one over all lines, of the first refused line and the reason it was refused.
Otherwise the lines state bindings, and the table gives each name the value of the last of them
that binds it and no value to a name none of them binds; it holds one entry per distinct name. -/
theorem read_outcome (text : String) :
    ((∃ e, read text = .error e) ↔ ∃ l ∈ lines text.toList, ∃ e, Refuses l e) ∧
      (∀ e, read text = .error e ↔ ∃ pre l post e', lines text.toList = pre ++ l :: post ∧
          (∀ l' ∈ pre, ∀ e'', ¬Refuses l' e'') ∧ Refuses l e' ∧ e = .line (pre.length + 1) e') ∧
      ((∀ l ∈ lines text.toList, ∀ e, ¬Refuses l e) →
        ∃ b bs, read text = .ok b ∧ LinesBind (lines text.toList) bs ∧
          (∀ n, b.get? n = lastValue? bs n) ∧ b.size = (bs.map (·.name)).toFinset.card) := by
  have herr : ∀ e, read text = .error e ↔ ∃ pre l post e', lines text.toList = pre ++ l :: post ∧
      (∀ l' ∈ pre, ∀ e'', ¬Refuses l' e'') ∧ Refuses l e' ∧ e = .line (pre.length + 1) e' := by
    intro e
    rw [read, readLines_eq_error_iff]
  refine ⟨⟨?_, ?_⟩, herr, ?_⟩
  · rintro ⟨e, he⟩
    obtain ⟨pre, l, post, e', hls, -, hl, -⟩ := (herr e).mp he
    exact ⟨l, by rw [hls]; simp, e', hl⟩
  · intro h
    obtain ⟨pre, l, post, e, hls, hpre, hl⟩ := exists_first_refuses h
    exact ⟨_, (herr _).mpr ⟨pre, l, post, e, hls, hpre, hl, rfl⟩⟩
  · intro h
    obtain ⟨bs, hbs⟩ := linesBind_of_not_refuses h
    refine ⟨empty.extend bs, bs, readLines_of_linesBind hbs empty 1, hbs, fun n => ?_,
      size_empty_extend bs⟩
    rw [get?_extend, show empty.get? n = none from rfl, Option.or_none]

/-- A comment line and a blank line count: the refused line is the third. -/
example : (match read "# cells\n\nb 2\n" with | .error e => some e | .ok _ => none) =
    some (.line 3 (.missingEquals "b 2")) := by
  decide +kernel

end Formulas.Bindings
