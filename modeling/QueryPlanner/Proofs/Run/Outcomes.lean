import Mathlib.Data.Set.Basic
import QueryPlanner.Proofs.Expr.Clauses
import QueryPlanner.Proofs.Plan.RowOrder
import QueryPlanner.Run.Plan

/-!
# Outcomes of running operators

Two plans that fail may fail with different faults, so plans are compared by the rows they give, if
they give any.  That is the value of a run under `Except.toOption`.

## Main definitions

* `Source.index?` — the index that a leaf reads.
* `Binary.rightBindings` — the bindings under which an operator runs its right input.

## Main results

* `Plan.toOption_run_unary_congr`, `Plan.toOption_run_binary_congr` — an operator gives the same
  rows over inputs that do.
* `Plan.run_binary_congr` — and the same fault over inputs that fail in the same way.
* `mem_distinctRows`, `pairwise_distinctRows` — dropping duplicates among rows that are told apart.
-/

namespace QueryPlanner

/-! ### Results without faults -/

theorem toOption_bind {α β : Type} (x : Except Fault α) (f : α → Except Fault β) :
    (x >>= f).toOption = x.toOption.bind fun a => (f a).toOption := by
  cases x <;> rfl

theorem toOption_ok {α : Type} (a : α) : (Except.ok a : Except Fault α).toOption = some a := rfl

/-- Two computations that give the same results, if any, are told apart by their faults only. -/
theorem eq_ok_iff_of_toOption_eq {α : Type} {x y : Except Fault α} (h : x.toOption = y.toOption)
    (a : α) : x = .ok a ↔ y = .ok a := by
  rw [← toOption_eq_some_iff, h, toOption_eq_some_iff]

/-! ### Reading indexes -/

@[simp] theorem Tables.scan_toStore (tables : Tables) (i : Index) :
    tables.toStore.scan i = tables.scan i := rfl

theorem Tables.scan_eq_ok_iff {tables : Tables} {i : Index} {rows : List Row} :
    tables.toStore.scan i = .ok rows ↔
      ∃ table, tables.table? i = some table ∧ i.key.sort table = rows := by
  rw [scan_toStore, scan]
  cases tables.table? i <;> simp

theorem Tables.toOption_scan (tables : Tables) (i : Index) :
    (tables.toStore.scan i).toOption = (tables.table? i).map i.key.sort := by
  rw [scan_toStore, scan]
  cases tables.table? i <;> rfl

theorem Store.toOption_scanKeys (store : Store) {i : Index} {key : SortKey}
    (hkey : i.leadingKey? = some key) (keys : IntervalSet) :
    (store.scanKeys i keys).toOption = (store.scan i).toOption.map fun rows =>
      rows.filter fun row => row[key.column]?.any keys.contains := by
  simp only [scanKeys, hkey]
  cases store.scan i <;> rfl

theorem Tables.toOption_scanKeys (tables : Tables) {i : Index} {key : SortKey}
    (hkey : i.leadingKey? = some key) (keys : IntervalSet) :
    (tables.toStore.scanKeys i keys).toOption = (tables.table? i).map fun rows =>
      (i.key.sort rows).filter fun row => row[key.column]?.any keys.contains := by
  rw [Store.toOption_scanKeys _ hkey, toOption_scan, Option.map_map]
  rfl

/-- The index that a leaf reads. -/
def Source.index? : Source → Option Index
  | .scan i => some i
  | .rows _ _ => none
  | .seek i _ => some i
  | .range i _ => some i
  | .rangeSet i _ => some i
  | .multiSeek i _ => some i

theorem Store.sublist_of_scanKeys {store : Store} {i : Index} {keys : IntervalSet} {rows : List Row}
    (h : store.scanKeys i keys = .ok rows) :
    ∃ stored, store.scan i = .ok stored ∧ rows.Sublist stored := by
  cases hkey : i.leadingKey? with
  | none => simp [scanKeys, hkey] at h
  | some key =>
    rw [← toOption_eq_some_iff, store.toOption_scanKeys hkey] at h
    obtain ⟨stored, hstored, rfl⟩ := Option.map_eq_some_iff.mp h
    exact ⟨stored, toOption_eq_some_iff.mp hstored, List.filter_sublist⟩

theorem Source.header_of_index? {leaf : Source} {i : Index} (hi : leaf.index? = some i) :
    leaf.header = i.header := by
  cases leaf <;> cases hi <;> rfl

/-- A leaf reads rows of its index in the order in which the store gives them. -/
theorem Source.sublist_of_run {store : Store} {b : Bindings} {leaf : Source} {rows : List Row}
    {i : Index} (hi : leaf.index? = some i) (hrun : leaf.run store b = .ok rows) :
    ∃ stored, store.scan i = .ok stored ∧ rows.Sublist stored := by
  cases leaf with
  | scan index =>
    obtain rfl := Option.some.inj hi
    exact ⟨rows, hrun, List.Sublist.refl _⟩
  | rows header given => cases hi
  | seek index key =>
    obtain rfl := Option.some.inj hi
    obtain ⟨v, _, hrun⟩ := bind_eq_ok_iff.mp hrun
    exact Store.sublist_of_scanKeys hrun
  | range index condition | rangeSet index condition =>
    obtain rfl := Option.some.inj hi
    obtain ⟨ty, _, hrun⟩ := bind_eq_ok_iff.mp hrun
    exact Store.sublist_of_scanKeys hrun
  | multiSeek index keys =>
    obtain rfl := Option.some.inj hi
    obtain ⟨ty, _, hrun⟩ := bind_eq_ok_iff.mp hrun
    obtain ⟨values, _, hrun⟩ := bind_eq_ok_iff.mp hrun
    exact Store.sublist_of_scanKeys hrun

/-- From tables in memory a leaf reads rows in key order. -/
theorem Source.sublist_table_of_run {tables : Tables} {b : Bindings} {leaf : Source}
    {rows : List Row} {i : Index} (hi : leaf.index? = some i)
    (hrun : leaf.run tables b = .ok rows) :
    ∃ table, tables.table? i = some table ∧ rows.Sublist (i.key.sort table) := by
  obtain ⟨stored, hscan, hsub⟩ := sublist_of_run hi hrun
  obtain ⟨table, htable, rfl⟩ := Tables.scan_eq_ok_iff.mp hscan
  exact ⟨table, htable, hsub⟩

/-! ### Rows one by one -/

theorem keepRows_eq {test : Row → Except Fault Bool} {f : Row → Bool} : ∀ rows : List Row,
    (∀ row ∈ rows, test row = .ok (f row)) → keepRows test rows = .ok (rows.filter f) := by
  intro rows
  induction rows with
  | nil => intro _; rfl
  | cons row rest ih =>
    intro h
    rw [keepRows, h row (by simp), ok_bind, ih fun r hr => h r (by simp [hr])]
    cases hf : f row <;> simp [hf]

theorem keepRows_congr {test test' : Row → Except Fault Bool} : ∀ {rows : List Row},
    (∀ row ∈ rows, test row = test' row) → keepRows test rows = keepRows test' rows := by
  intro rows
  induction rows with
  | nil => intro _; rfl
  | cons row rest ih =>
    intro h
    rw [keepRows, keepRows, h row (by simp), ih fun r hr => h r (by simp [hr])]

/-- Where a test fails on some row, keeping rows fails as the test does on one of them. -/
theorem exists_error_of_keepRows {test : Row → Except Fault Bool} : ∀ {rows : List Row},
    ¬ (∀ row ∈ rows, ∃ x, test row = .ok x) →
    ∃ row ∈ rows, ∃ f, test row = .error f ∧ keepRows test rows = .error f := by
  intro rows
  induction rows with
  | nil => intro h; exact absurd (by simp) h
  | cons row rest ih =>
    intro h
    cases htest : test row with
    | error f => exact ⟨row, by simp, f, htest, by rw [keepRows, htest, error_bind]⟩
    | ok x =>
      have hrest : ¬ ∀ r ∈ rest, ∃ y, test r = .ok y := by
        intro hall
        refine h fun r hr => ?_
        rcases List.mem_cons.mp hr with rfl | hr
        · exact ⟨x, htest⟩
        · exact hall r hr
      obtain ⟨r, hr, f, hf, hkeep⟩ := ih hrest
      refine ⟨r, by simp [hr], f, hf, ?_⟩
      cases x <;> simp [keepRows, htest, hkeep]

theorem toOption_spreadRows_congr {f g : Row → Except Fault (List Row)} : ∀ rows : List Row,
    (∀ row ∈ rows, (f row).toOption = (g row).toOption) →
    (spreadRows f rows).toOption = (spreadRows g rows).toOption := by
  intro rows
  induction rows with
  | nil => intro _; rfl
  | cons row rest ih =>
    intro h
    simp only [spreadRows, toOption_bind, h row (by simp), ih fun r hr => h r (by simp [hr])]

theorem spreadRows_congr {f g : Row → Except Fault (List Row)} : ∀ {rows : List Row},
    (∀ row ∈ rows, f row = g row) → spreadRows f rows = spreadRows g rows := by
  intro rows
  induction rows with
  | nil => intro _; rfl
  | cons row rest ih =>
    intro h
    rw [spreadRows, spreadRows, h row (by simp), ih fun r hr => h r (by simp [hr])]

/-- Rows are made in sequence exactly if some are made of each row. -/
theorem spreadRows_eq_ok_iff {f : Row → Except Fault (List Row)} : ∀ {rows out : List Row},
    spreadRows f rows = .ok out ↔
      ∃ g : Row → List Row, (∀ row ∈ rows, f row = .ok (g row)) ∧ rows.flatMap g = out := by
  -- The induction is on the rows: each succeeds, so all do.
  have hrun : ∀ {g : Row → List Row} (rows : List Row), (∀ row ∈ rows, f row = .ok (g row)) →
      spreadRows f rows = .ok (rows.flatMap g) := by
    intro g rows
    induction rows with
    | nil => intro _; rfl
    | cons row rest ih =>
      intro h
      rw [spreadRows, h row (by simp), ok_bind, ih fun r hr => h r (by simp [hr]), ok_bind,
        pure_eq_ok, List.flatMap_cons]
  -- Conversely, all rows succeed if the whole does, and what each gives can be read off.
  have hrow : ∀ {rows out : List Row}, spreadRows f rows = .ok out →
      ∀ row ∈ rows, f row = .ok ((f row).toOption.getD []) := by
    intro rows
    induction rows with
    | nil => intro _ _ row hrow; cases hrow
    | cons r rest ih =>
      intro out h row hrow
      obtain ⟨made, hmade, h⟩ := bind_eq_ok_iff.mp h
      obtain ⟨others, hothers, _⟩ := bind_eq_ok_iff.mp h
      rcases List.mem_cons.mp hrow with rfl | hrow
      · rw [hmade, toOption_ok, Option.getD_some]
      · exact ih hothers row hrow
  intro rows out
  constructor
  · intro h
    refine ⟨_, hrow h, ?_⟩
    have hsame := hrun rows (hrow h)
    rw [h] at hsame
    exact (Except.ok.inj hsame).symm
  · rintro ⟨g, hg, rfl⟩
    exact hrun rows hg

/-! ### Dropping duplicates -/

theorem mem_distinctAfter_of_mem_seen {row : Row} : ∀ (rows seen : List Row), row ∈ seen →
    row ∈ distinctAfter seen rows := by
  intro rows
  induction rows with
  | nil => intro seen h; exact h
  | cons r rest ih =>
    intro seen h
    rw [distinctAfter]
    split
    · exact ih seen h
    · exact ih _ (by simp [h])

theorem mem_or_mem_of_mem_distinctAfter {row : Row} : ∀ (rows seen : List Row),
    row ∈ distinctAfter seen rows → row ∈ seen ∨ row ∈ rows := by
  intro rows
  induction rows with
  | nil => intro seen h; exact Or.inl h
  | cons r rest ih =>
    intro seen h
    rw [distinctAfter] at h
    split at h
    · exact (ih seen h).imp_right fun hr => by simp [hr]
    · rcases ih _ h with hseen | hrest
      · rcases List.mem_append.mp hseen with hseen | hr
        · exact Or.inl hseen
        · exact Or.inr (by simp [List.mem_singleton.mp hr])
      · exact Or.inr (by simp [hrest])

/-- Every row is kept, or one with an equal key is. -/
theorem exists_keyEq_distinctAfter {row : Row} : ∀ (rows seen : List Row), row ∈ rows →
    ∃ r ∈ distinctAfter seen rows, Row.keyEq r row := by
  intro rows
  induction rows with
  | nil => intro seen h; simp at h
  | cons r rest ih =>
    intro seen h
    rw [distinctAfter]
    split
    · rename_i hany
      rcases List.mem_cons.mp h with rfl | hrest
      · obtain ⟨s, hs, hkey⟩ := List.any_eq_true.mp hany
        exact ⟨s, mem_distinctAfter_of_mem_seen rest seen hs, hkey⟩
      · exact ih seen hrest
    · rcases List.mem_cons.mp h with rfl | hrest
      · exact ⟨row, mem_distinctAfter_of_mem_seen rest _ (by simp), Row.keyEq_self row⟩
      · exact ih _ hrest

theorem pairwise_distinctAfter : ∀ (rows seen : List Row),
    (seen.Pairwise fun a b => ¬ Row.keyEq a b) →
    (distinctAfter seen rows).Pairwise fun a b => ¬ Row.keyEq a b := by
  intro rows
  induction rows with
  | nil => intro seen h; exact h
  | cons r rest ih =>
    intro seen h
    rw [distinctAfter]
    split
    · exact ih seen h
    · rename_i hany
      refine ih _ (List.pairwise_append.mpr ⟨h, List.pairwise_singleton _ _, ?_⟩)
      intro a ha c hc hkey
      rw [List.mem_singleton.mp hc] at hkey
      exact hany (List.any_eq_true.mpr ⟨a, ha, hkey⟩)

theorem pairwise_distinctRows (rows : List Row) :
    (distinctRows rows).Pairwise fun a b => ¬ Row.keyEq a b :=
  pairwise_distinctAfter rows [] List.Pairwise.nil

/-- Dropping duplicates loses no row if rows with equal keys are equal. -/
theorem mem_distinctRows {rows : List Row}
    (h : ∀ a ∈ rows, ∀ b ∈ rows, Row.keyEq a b → a = b) {row : Row} :
    row ∈ distinctRows rows ↔ row ∈ rows := by
  have hsub : ∀ r ∈ distinctRows rows, r ∈ rows := fun r hr =>
    (mem_or_mem_of_mem_distinctAfter rows [] hr).resolve_left (by simp)
  constructor
  · exact hsub row
  · intro hrow
    obtain ⟨r, hr, hkey⟩ := exists_keyEq_distinctAfter rows [] hrow
    rwa [h r (hsub r hr) row hrow hkey] at hr

/-! ### Operators -/

/-- The bindings under which an operator runs its right input, given the outcome of its left one. -/
def Binary.rightBindings (op : Binary) (b : Bindings) (left : Except Fault (List Row)) :
    Set Bindings :=
  match op with
  | .apply _ columns =>
    {b' | ∃ rows, left = .ok rows ∧ ∃ row ∈ rows, b.ofColumns row columns = .ok b'}
  | _ => {b}

/-- An operator gives the same rows if its right input does, under all bindings that it runs with.
-/
theorem Binary.toOption_run_congr {b : Bindings} (op : Binary) (width : Nat) (left : List Row)
    {right right' : Bindings → Except Fault (List Row)}
    (h : ∀ b' ∈ op.rightBindings b (.ok left), (right b').toOption = (right' b').toOption) :
    (op.run b width left right).toOption = (op.run b width left right').toOption := by
  cases op with
  | apply kind columns =>
    refine toOption_spreadRows_congr left fun row hrow => ?_
    simp only [toOption_bind]
    cases hb : b.ofColumns row columns with
    | error e => rfl
    | ok b' => simp only [toOption_ok, Option.bind_some, h b' ⟨left, rfl, row, hrow, hb⟩]
  | _ => simp only [Binary.run, toOption_bind, h b rfl]

/-- An operator gives the same rows or the same fault if its right input does. -/
theorem Binary.run_congr {b : Bindings} (op : Binary) (width : Nat) (left : List Row)
    {right right' : Bindings → Except Fault (List Row)}
    (h : ∀ b' ∈ op.rightBindings b (.ok left), right b' = right' b') :
    op.run b width left right = op.run b width left right' := by
  cases op with
  | apply kind columns =>
    refine spreadRows_congr fun row hrow => ?_
    cases hb : b.ofColumns row columns with
    | error e => rfl
    | ok b' => simp only [ok_bind, h b' ⟨left, rfl, row, hrow, hb⟩]
  | _ => simp only [Binary.run, h b rfl]

namespace Plan

variable {store : Store} {b : Bindings}

/-- An operator over an input that gives the same rows gives the same rows. -/
theorem toOption_run_unary_congr (op : Unary) {p q : Plan}
    (h : (q.run store b).toOption = (p.run store b).toOption) :
    ((Plan.unary op q).run store b).toOption = ((Plan.unary op p).run store b).toOption := by
  simp only [run, toOption_bind, h]

/-- An operator over two inputs that give the same rows gives the same rows. -/
theorem toOption_run_binary_congr (op : Binary) {l l' r r' : Plan}
    (hl : (l'.run store b).toOption = (l.run store b).toOption)
    (hwidth : r'.header.width = r.header.width)
    (hr : ∀ b' ∈ op.rightBindings b (l.run store b),
      (r'.run store b').toOption = (r.run store b').toOption) :
    ((Plan.binary op l' r').run store b).toOption =
      ((Plan.binary op l r).run store b).toOption := by
  simp only [run, toOption_bind, hl, hwidth]
  cases hrun : l.run store b with
  | error e => rfl
  | ok rows =>
    rw [hrun] at hr
    exact op.toOption_run_congr _ rows hr

/-- An operator over two inputs that give the same rows or faults gives the same rows or fault. -/
theorem run_binary_congr (op : Binary) {l l' r r' : Plan} (hl : l'.run store b = l.run store b)
    (hwidth : r'.header.width = r.header.width)
    (hr : ∀ b' ∈ op.rightBindings b (l.run store b), r'.run store b' = r.run store b') :
    (Plan.binary op l' r').run store b = (Plan.binary op l r).run store b := by
  simp only [run, hl, hwidth]
  cases hrun : l.run store b with
  | error e => rfl
  | ok rows =>
    rw [hrun] at hr
    exact op.run_congr _ rows hr

end Plan

end QueryPlanner
