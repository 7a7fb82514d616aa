import QueryPlanner.Proofs.Plan.SortedRows
import QueryPlanner.Proofs.Run.Outcomes

/-!
# Running operators over sorted rows

Most operators give the rows that they make of each input row in sequence.  Over sorted rows such an
operator gives what sorting its result over the rows as they are gives, as long as the order sees of
each row made what it saw of the row that it was made of.  Dropping duplicates does the same, since
rows with equal keys tie.  The operators that count rows do not, but what they give of sorted rows
is sorted.

## Main definitions

* `Carries` — an operation on rows takes sorted rows to sorted rows.
* `Unary.needsOrder` — the operators whose result depends on the order of their input.
* `Binary.isJoin` — the operators that give rows of both inputs side by side.

## Main results

* `carries_spreadRows` — operations on one row after the other.
* `carries_filter`, `carries_calculate`, `carries_select`, `carries_distinct`, `Binary.carries` —
  the operators that keep the order of their input.
* `Unary.sort_run_of_needsOrder` — the operators that count rows keep sorted rows sorted.
-/

namespace QueryPlanner

open Value (TransitiveOn)

/-- An operation on rows takes sorted rows to sorted rows: if it is run over rows sorted by the
first order, it gives the rows that it gives without that, sorted by the second order. -/
def Carries (S : Set Value) (order order' : SortOrder) (f : List Row → Except Fault (List Row)) :
    Prop :=
  ∀ rows out, (∀ row ∈ rows, ∀ v ∈ row, v ∈ S) → (∀ row ∈ rows, order.HasKeys S row) →
    f (order.sort rows) = .ok out →
    ∃ out', f rows = .ok out' ∧ order'.sort out' = out ∧ ∀ row ∈ out, order'.HasKeys S row

theorem Plan.run_sort {store : Store} {order : SortOrder} {input : Plan} {b : Bindings}
    {rows sorted : List Row} (hrun : input.run store b = .ok rows)
    (hsort : order.sort rows = sorted) :
    (Plan.unary (.sort order) input).run store b = .ok sorted := by
  rw [run, hrun, ok_bind, Unary.run, hsort]

/-! ### One row after the other -/

theorem keepRows_eq_spreadRows (test : Row → Except Fault Bool) : ∀ rows : List Row,
    keepRows test rows =
      spreadRows (fun row => do return if ← test row then [row] else []) rows := by
  intro rows
  induction rows with
  | nil => rfl
  | cons row rest ih =>
    rw [keepRows, spreadRows, ih]
    cases htest : test row with
    | error e => rfl
    | ok passes =>
      cases passes
      · exact (bind_pure _).symm
      · rfl

theorem mapRows_eq_spreadRows (f : Row → Except Fault Row) : ∀ rows : List Row,
    mapRows f rows = spreadRows (fun row => do return [← f row]) rows := by
  intro rows
  induction rows with
  | nil => rfl
  | cons row rest ih =>
    rw [mapRows, spreadRows, ih]
    cases f row <;> rfl

/-- The rows that pass a test are found exactly if the test gives an answer for each row. -/
theorem keepRows_eq_ok_iff {test : Row → Except Fault Bool} {rows out : List Row} :
    keepRows test rows = .ok out ↔
      ∃ f : Row → Bool, (∀ row ∈ rows, test row = .ok (f row)) ∧ rows.filter f = out := by
  constructor
  · intro h
    have hspread := h
    rw [keepRows_eq_spreadRows] at hspread
    obtain ⟨g, hg, _⟩ := spreadRows_eq_ok_iff.mp hspread
    have htest : ∀ row ∈ rows, test row = .ok ((test row).toOption.getD false) := by
      intro row hrow
      obtain ⟨passes, hpasses, _⟩ := bind_eq_ok_iff.mp (hg row hrow)
      rw [hpasses, toOption_ok, Option.getD_some]
    rw [keepRows_eq rows htest] at h
    exact ⟨_, htest, Except.ok.inj h⟩
  · rintro ⟨f, hf, rfl⟩
    exact keepRows_eq rows hf

/-- Each row is replaced by another exactly if one is made of it. -/
theorem mapRows_eq_ok_iff {f : Row → Except Fault Row} {rows out : List Row} :
    mapRows f rows = .ok out ↔
      ∃ g : Row → Row, (∀ row ∈ rows, f row = .ok (g row)) ∧ rows.map g = out := by
  have hrun : ∀ {g : Row → Row}, (∀ row ∈ rows, f row = .ok (g row)) →
      mapRows f rows = .ok (rows.map g) := by
    intro g hg
    rw [mapRows_eq_spreadRows, List.map_eq_flatMap]
    refine spreadRows_eq_ok_iff.mpr ⟨_, fun row hrow => ?_, rfl⟩
    rw [hg row hrow]
    rfl
  constructor
  · intro h
    have hspread := h
    rw [mapRows_eq_spreadRows] at hspread
    obtain ⟨g, hg, _⟩ := spreadRows_eq_ok_iff.mp hspread
    have hf : ∀ row ∈ rows, f row = .ok ((f row).toOption.getD []) := by
      intro row hrow
      obtain ⟨made, hmade, _⟩ := bind_eq_ok_iff.mp (hg row hrow)
      rw [hmade, toOption_ok, Option.getD_some]
    rw [hrun hf] at h
    exact ⟨_, hf, Except.ok.inj h⟩
  · rintro ⟨g, hg, rfl⟩
    exact hrun hg

section Carries

variable {S : Set Value} {order order' : SortOrder}

/-- **An operation on one row after the other takes sorted rows to sorted rows**, if the second
order sees of the rows made what the first sees of the row they are made of. -/
theorem carries_spreadRows (hS : TransitiveOn S) {f : Row → Except Fault (List Row)}
    (hf : ∀ row made, order.HasKeys S row → f row = .ok made →
      ∀ x ∈ made, order'.keysOf x = order.keysOf row) :
    Carries S order order' (spreadRows f) := by
  intro rows out _ hkeys hout
  obtain ⟨g, hg, rfl⟩ := spreadRows_eq_ok_iff.mp hout
  have hg' : ∀ row ∈ rows, f row = .ok (g row) :=
    fun row hrow => hg row (SortOrder.mem_sort.mpr hrow)
  -- Every row that is made has the sort keys of the row it is made from.
  have hsees : ∀ row ∈ rows, ∀ x ∈ g row, order'.keysOf x = order.keysOf row :=
    fun row hrow x hx => hf row _ (hkeys row hrow) (hg' row hrow) x hx
  have hhas : ∀ row ∈ rows, ∀ x ∈ g row, order'.HasKeys S x :=
    fun row hrow x hx => (hkeys row hrow).of_keysOf_eq (hsees row hrow x hx)
  -- Hence sorting and spreading can be exchanged.
  have hsort : order'.sort (rows.flatMap g) = (order.sort rows).flatMap g := by
    refine ((SortOrder.ordersOn_hasKeys hS order).flatMap_mergeSort hkeys
      (SortOrder.ordersOn_hasKeys hS order') hhas ?_).symm
    intro a ha c hc x hx y hy
    rw [SortOrder.le, SortOrder.le,
      SortOrder.compareRows_of_keysOf_eq (hsees a ha x hx) (hsees c hc y hy)]
  refine ⟨rows.flatMap g, spreadRows_eq_ok_iff.mpr ⟨g, hg', rfl⟩, hsort, ?_⟩
  intro x hx
  obtain ⟨row, hrow, hx⟩ := List.mem_flatMap.mp hx
  exact hhas row (SortOrder.mem_sort.mp hrow) x hx

theorem carries_mapRows (hS : TransitiveOn S) {f : Row → Except Fault Row}
    (hf : ∀ row x, order.HasKeys S row → f row = .ok x → order'.keysOf x = order.keysOf row) :
    Carries S order order' (mapRows f) := by
  have hspread : mapRows f = spreadRows fun row => do return [← f row] :=
    funext (mapRows_eq_spreadRows f)
  rw [hspread]
  refine carries_spreadRows hS fun row made hkeys hmade x hx => ?_
  obtain ⟨y, hy, hmade⟩ := bind_eq_ok_iff.mp hmade
  obtain rfl := Except.ok.inj hmade
  rw [List.mem_singleton.mp hx]
  exact hf row y hkeys hy

variable {b : Bindings}

theorem carries_filter (hS : TransitiveOn S) (predicate : Expr) :
    Carries S order order fun rows => (Unary.filter predicate).run b rows := by
  have hspread : keepRows (fun row => predicate.holds row b) = spreadRows fun row => do
      return if ← predicate.holds row b then [row] else [] := funext (keepRows_eq_spreadRows _)
  show Carries S order order (keepRows fun row => predicate.holds row b)
  rw [hspread]
  refine carries_spreadRows hS fun row made _ hmade x hx => ?_
  obtain ⟨passes, _, hmade⟩ := bind_eq_ok_iff.mp hmade
  obtain rfl := Except.ok.inj hmade
  cases passes
  · cases hx
  · rw [List.mem_singleton.mp hx]

theorem carries_calculate (hS : TransitiveOn S) (columns : List Calculation) :
    Carries S order order fun rows => (Unary.calculate columns).run b rows := by
  refine carries_mapRows hS fun row x hkeys hx => ?_
  obtain ⟨values, _, hx⟩ := bind_eq_ok_iff.mp hx
  obtain rfl := Except.ok.inj hx
  exact hkeys.keysOf_append values

theorem carries_rename (name : String) :
    Carries S order order fun rows => (Unary.rename name).run b rows := by
  intro rows out _ hkeys hout
  obtain rfl := Except.ok.inj hout
  exact ⟨rows, rfl, rfl, fun row hrow => hkeys row (SortOrder.mem_sort.mp hrow)⟩

end Carries

/-! ### Selected columns -/

theorem Row.column_eq_ok_iff {row : Row} {i : Nat} {v : Value} :
    Row.column row i = .ok v ↔ row[i]? = some v := by
  rw [Row.column]
  cases row[i]? <;> simp

/-- The values in selected columns are those of the row. -/
theorem Row.getElem?_project {row : Row} : ∀ {columns : List Nat} {out : Row},
    Row.project row columns = .ok out → ∀ i : Nat, out[i]? = columns[i]?.bind fun c => row[c]? := by
  intro columns
  induction columns with
  | nil =>
    intro out h i
    obtain rfl := Except.ok.inj h
    rfl
  | cons c columns ih =>
    intro out h i
    obtain ⟨v, hv, h⟩ := bind_eq_ok_iff.mp h
    obtain ⟨others, hothers, h⟩ := bind_eq_ok_iff.mp h
    obtain rfl := Except.ok.inj h
    cases i with
    | zero => simp [Row.column_eq_ok_iff.mp hv]
    | succ i => simpa using ih hothers i

theorem Row.mem_of_mem_project {row out : Row} {columns : List Nat} {v : Value}
    (h : Row.project row columns = .ok out) (hv : v ∈ out) : v ∈ row := by
  obtain ⟨i, hi⟩ := List.getElem?_of_mem hv
  rw [Row.getElem?_project h] at hi
  obtain ⟨c, _, hc⟩ := Option.bind_eq_some_iff.mp hi
  exact List.mem_of_getElem? hc

theorem carries_select {S : Set Value} {order : SortOrder} {b : Bindings} (hS : TransitiveOn S)
    {columns : List Nat} (hnone : (order.remap columns).2 = none) :
    Carries S order (order.remap columns).1 fun rows => (Unary.select columns).run b rows :=
  carries_mapRows hS fun _ _ _ hx => SortOrder.keysOf_remap (Row.getElem?_project hx) hnone

/-! ### Dropping duplicates -/

/-- Dropping duplicates keeps rows in their places. -/
theorem distinctAfter_eq_append : ∀ rows seen : List Row,
    ∃ fresh, distinctAfter seen rows = seen ++ fresh ∧ fresh.Sublist rows := by
  intro rows
  induction rows with
  | nil => intro seen; exact ⟨[], (List.append_nil seen).symm, List.Sublist.refl _⟩
  | cons row rest ih =>
    intro seen
    rw [distinctAfter]
    split
    · obtain ⟨fresh, hfresh, hsub⟩ := ih seen
      exact ⟨fresh, hfresh, hsub.cons row⟩
    · obtain ⟨fresh, hfresh, hsub⟩ := ih (seen ++ [row])
      exact ⟨row :: fresh, by rw [hfresh, List.append_assoc]; rfl, hsub.cons_cons row⟩

theorem distinctRows_sublist (rows : List Row) : (distinctRows rows).Sublist rows := by
  obtain ⟨fresh, hfresh, hsub⟩ := distinctAfter_eq_append rows []
  rw [distinctRows, hfresh]
  exact hsub

/-- Duplicates are dropped among the rows that pass a test as among all rows, if rows with equal
keys pass it together. -/
theorem filter_distinctAfter {T : Set Row} {p : Row → Bool}
    (hp : ∀ a ∈ T, ∀ c ∈ T, Row.keyEq a c → p a = p c) : ∀ rows seen : List Row,
    (∀ row ∈ rows, row ∈ T) → (∀ row ∈ seen, row ∈ T) →
    (distinctAfter seen rows).filter p = distinctAfter (seen.filter p) (rows.filter p) := by
  intro rows
  induction rows with
  | nil => intro seen _ _; rfl
  | cons row rest ih =>
    intro seen hrows hseen
    have hrest : ∀ r ∈ rest, r ∈ T := fun r hr => hrows r (by simp [hr])
    -- The rows seen so far are general, since each step adds one.
    have hseen' : ∀ r ∈ seen ++ [row], r ∈ T := by
      intro r hr
      rcases List.mem_append.mp hr with hr | hr
      · exact hseen r hr
      · exact hrows r (by simp [List.mem_singleton.mp hr])
    -- A row that passes is a duplicate of a row seen just if it is one of a row seen that passes.
    by_cases hrow : p row
    · have hany : (seen.filter p).any (fun s => Row.keyEq s row) =
          seen.any fun s => Row.keyEq s row := by
        rw [Bool.eq_iff_iff, List.any_eq_true, List.any_eq_true]
        constructor
        · rintro ⟨s, hs, hkey⟩
          exact ⟨s, (List.mem_filter.mp hs).1, hkey⟩
        · rintro ⟨s, hs, hkey⟩
          have hps := hp s (hseen s hs) row (hrows row (by simp)) hkey
          exact ⟨s, List.mem_filter.mpr ⟨hs, hps.trans hrow⟩, hkey⟩
      rw [List.filter_cons_of_pos hrow, distinctAfter, distinctAfter, hany]
      split
      · exact ih seen hrest hseen
      · rw [ih _ hrest hseen', List.filter_append, List.filter_cons_of_pos hrow, List.filter_nil]
    · rw [List.filter_cons_of_neg hrow, distinctAfter]
      split
      · exact ih seen hrest hseen
      · rw [ih _ hrest hseen', List.filter_append, List.filter_cons_of_neg hrow, List.filter_nil,
          List.append_nil]

section Duplicates

variable {S : Set Value} {order : SortOrder}

/-- **Dropping duplicates commutes with sorting.** -/
theorem distinctRows_sort (hS : TransitiveOn S) {rows : List Row}
    (hkeys : ∀ row ∈ rows, order.HasKeys S row) :
    distinctRows (order.sort rows) = order.sort (distinctRows rows) := by
  have horder := SortOrder.ordersOn_hasKeys hS order
  have hsub : ∀ {m : List Row} {a : Row}, a ∈ distinctRows m → a ∈ m :=
    fun ha => (distinctRows_sublist _).subset ha
  -- Rows with equal keys tie, so each tie is freed of duplicates by itself.
  have hclass : ∀ a, order.HasKeys S a →
      (distinctRows (order.sort rows)).filter (ties order.le a) =
        (distinctRows rows).filter (ties order.le a) := by
    intro a ha
    have hp : ∀ c ∈ {row | order.HasKeys S row}, ∀ d ∈ {row | order.HasKeys S row},
        Row.keyEq c d → ties order.le a c = ties order.le a d := by
      intro c hc d hd hkey
      refine horder.ties_congr ha hc hd ?_
      have hdc : Row.keyEq d c := by rw [Row.keyEq_comm]; exact hkey
      simp [ties, SortOrder.le, order.compareRows_of_keyEq hkey, order.compareRows_of_keyEq hdc]
    have hsorted : ∀ row ∈ order.sort rows, order.HasKeys S row :=
      fun row hrow => hkeys row (SortOrder.mem_sort.mp hrow)
    rw [distinctRows, distinctRows, filter_distinctAfter hp _ _ hsorted (by simp),
      filter_distinctAfter hp _ _ hkeys (by simp), SortOrder.sort_eq_mergeSort,
      horder.filter_ties_mergeSort hkeys ha]
  refine horder.eq_mergeSort (fun a ha => hkeys a (hsub ha)) ?_ ?_
    fun a ha => hclass a (hkeys a (hsub ha))
  · intro a ha
    have hhas := hkeys a (SortOrder.mem_sort.mp (hsub ha))
    have hmem : a ∈ (distinctRows rows).filter (ties order.le a) := by
      rw [← hclass a hhas]
      exact List.mem_filter.mpr ⟨ha, horder.ties_self hhas⟩
    exact (List.mem_filter.mp hmem).1
  · exact (horder.pairwise_mergeSort hkeys).sublist (distinctRows_sublist _)

theorem carries_distinct {b : Bindings} (hS : TransitiveOn S) :
    Carries S order order fun rows => Unary.distinct.run b rows := by
  intro rows out _ hkeys hout
  obtain rfl := Except.ok.inj hout
  refine ⟨distinctRows rows, rfl, (distinctRows_sort hS hkeys).symm, fun row hrow => ?_⟩
  exact hkeys row (SortOrder.mem_sort.mp ((distinctRows_sublist _).subset hrow))

end Duplicates

/-! ### Counting rows -/

/-- The operators whose result depends on the order of their input. -/
def Unary.needsOrder : Unary → Bool
  | .skip _ => true
  | .take _ => true
  | .page _ _ => true
  | .number _ => true
  | _ => false

theorem pairwise_numbered {order : SortOrder} {S : Set Value} {rows : List Row}
    (hkeys : ∀ row ∈ rows, order.HasKeys S row) (h : rows.Pairwise fun a b => order.le a b) :
    (numbered rows).Pairwise fun a b => order.le a b := by
  have hfst : (rows.zipIdx.map Prod.fst).Pairwise fun a b => order.le a b := by
    rw [List.zipIdx_map_fst]
    exact h
  rw [List.pairwise_map] at hfst
  rw [numbered, List.pairwise_map]
  refine hfst.imp_of_mem fun {r s} hr hs hle => ?_
  have hmem : ∀ {t : Row × Nat}, t ∈ rows.zipIdx → order.HasKeys S t.1 :=
    fun ht => hkeys _ (List.fst_mem_of_mem_zipIdx ht)
  rw [SortOrder.le, SortOrder.compareRows_of_keysOf_eq ((hmem hr).keysOf_append _)
    ((hmem hs).keysOf_append _)]
  exact hle

/-- **The operators that count rows give sorted rows of sorted rows.** -/
theorem Unary.sort_run_of_needsOrder {S : Set Value} {order : SortOrder} {b : Bindings} {op : Unary}
    (hop : op.needsOrder) (hS : TransitiveOn S) {rows out : List Row}
    (hkeys : ∀ row ∈ rows, order.HasKeys S row) (hsorted : order.sort rows = rows)
    (hout : op.run b rows = .ok out) :
    order.sort out = out ∧ ∀ row ∈ out, order.HasKeys S row := by
  rw [SortOrder.sort_eq_self_iff hS hkeys] at hsorted
  -- Any part of sorted rows is sorted.
  have hsublist : ∀ {part : List Row}, part.Sublist rows →
      order.sort part = part ∧ ∀ row ∈ part, order.HasKeys S row := by
    intro part hpart
    have hkeys' : ∀ row ∈ part, order.HasKeys S row := fun row hrow => hkeys row (hpart.subset hrow)
    exact ⟨(SortOrder.sort_eq_self_iff hS hkeys').mpr (hsorted.sublist hpart), hkeys'⟩
  cases op with
  | skip count =>
    obtain rfl := Except.ok.inj hout
    exact hsublist (List.drop_sublist _ _)
  | take count =>
    obtain rfl := Except.ok.inj hout
    exact hsublist (List.take_sublist _ _)
  | page before count =>
    obtain rfl := Except.ok.inj hout
    exact hsublist ((List.take_sublist _ _).trans (List.drop_sublist _ _))
  | number column =>
    obtain rfl := Except.ok.inj hout
    -- Row numbers are appended, and leave the sort keys in place.
    have hkeys' : ∀ row ∈ numbered rows, order.HasKeys S row := by
      intro x hx
      obtain ⟨r, hr, rfl⟩ := List.mem_map.mp hx
      exact (hkeys r.1 (List.fst_mem_of_mem_zipIdx hr)).append _
    exact ⟨(SortOrder.sort_eq_self_iff hS hkeys').mpr (pairwise_numbered hkeys hsorted), hkeys'⟩
  | _ => cases hop

/-! ### Joins -/

namespace Binary

/-- The operators that give rows of both inputs side by side. -/
def isJoin : Binary → Bool
  | .join _ _ => true
  | .joinOn _ _ => true
  | .apply _ _ => true
  | _ => false

variable {S : Set Value} {order : SortOrder}

/-- A left row has nulls or the right rows that it matches put beside it. -/
theorem exists_extras {width : Nat} {l : Row} {matched made : List Row} {isLone : Bool}
    (hmade : (if isLone then pure [Row.padded l width] else pure (matched.map fun r => l ++ r) :
      Except Fault (List Row)) = .ok made) :
    ∃ extras, made = extras.map (l ++ ·) ∧
      (extras = [List.replicate width .null] ∨ extras = matched) := by
  cases isLone with
  | true =>
    obtain rfl := Except.ok.inj hmade
    exact ⟨_, rfl, Or.inl rfl⟩
  | false =>
    obtain rfl := Except.ok.inj hmade
    exact ⟨matched, rfl, Or.inr rfl⟩

theorem mem_beside {width : Nat} {l : Row} {matched made : List Row} {isLone : Bool}
    (hmade : (if isLone then pure [Row.padded l width] else pure (matched.map fun r => l ++ r) :
      Except Fault (List Row)) = .ok made) :
    ∀ x ∈ made, ∃ extra, x = l ++ extra ∧
      (extra = List.replicate width .null ∨ extra ∈ matched) := by
  intro x hx
  obtain ⟨extras, rfl, hextras⟩ := exists_extras hmade
  obtain ⟨extra, hextra, rfl⟩ := List.mem_map.mp hx
  refine ⟨extra, rfl, ?_⟩
  rcases hextras with rfl | rfl
  · exact Or.inl (List.mem_singleton.mp hextra)
  · exact Or.inr hextra

/-- An order of a left row does not see what is put beside it. -/
theorem keysOf_beside {width : Nat} {l : Row} {matched made : List Row} {isLone : Bool}
    (hkeys : order.HasKeys S l)
    (hmade : (if isLone then pure [Row.padded l width] else pure (matched.map fun r => l ++ r) :
      Except Fault (List Row)) = .ok made) : ∀ x ∈ made, order.keysOf x = order.keysOf l := by
  intro x hx
  obtain ⟨extra, rfl, _⟩ := mem_beside hmade x hx
  exact hkeys.keysOf_append extra

theorem carries_joinRows (hS : TransitiveOn S) (kind : JoinKind) (width : Nat)
    (test : Row → Row → Except Fault Bool) (right : List Row) :
    Carries S order order fun left => joinRows kind width test left right := by
  refine carries_spreadRows hS fun l made hkeys hmade => ?_
  obtain ⟨matched, _, hmade⟩ := bind_eq_ok_iff.mp hmade
  exact keysOf_beside hkeys hmade

/-- **A join takes left rows that are sorted to sorted rows.** -/
theorem carries {b : Bindings} {op : Binary} (hop : op.isJoin) (hS : TransitiveOn S) (width : Nat)
    (right : Bindings → Except Fault (List Row)) :
    Carries S order order fun left => op.run b width left right := by
  have hbind : ∀ {f : List Row → List Row → Except Fault (List Row)},
      (∀ rows, Carries S order order fun left => f left rows) →
      Carries S order order fun left => right b >>= f left := by
    intro f hf left out hvalues hkeys hout
    obtain ⟨rows, hrows, hout⟩ := bind_eq_ok_iff.mp hout
    obtain ⟨out', hout', hsort⟩ := hf rows left out hvalues hkeys hout
    exact ⟨out', bind_eq_ok_iff.mpr ⟨rows, hrows, hout'⟩, hsort⟩
  cases op with
  | join kind pairs => exact hbind fun rows => carries_joinRows hS kind width _ rows
  | joinOn kind predicate => exact hbind fun rows => carries_joinRows hS kind width _ rows
  | apply kind bindings =>
    refine carries_spreadRows hS fun l made hkeys hmade => ?_
    obtain ⟨b', _, hmade⟩ := bind_eq_ok_iff.mp hmade
    obtain ⟨matched, _, hmade⟩ := bind_eq_ok_iff.mp hmade
    exact keysOf_beside hkeys hmade
  | union => cases hop
  | concat => cases hop

end Binary

end QueryPlanner
