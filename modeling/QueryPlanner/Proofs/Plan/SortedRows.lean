import QueryPlanner.Proofs.Plan.RowOrder

/-!
# Rows that come in an order

All that an order sees of a row are its values in the columns of the order.  So rows can get further
columns, and their columns can be renumbered together with the order, without a change in how they
compare.  Rows come in an order if sorting by it leaves them as they are; then they come in every
order that begins it.

## Main definitions

* `SortOrder.keysOf` — what an order sees of a row.
* `SortOrder.HasKeys` — a row has all columns of an order, with values in a set.

## Main results

* `SortOrder.compareRows_of_keysOf_eq` — rows are compared by what the order sees of them.
* `SortOrder.sort_eq_self_iff` — sorting leaves rows as they are exactly if no row is out of place.
* `SortOrder.sort_eq_of_ties` — sorted rows are known by their ties.
* `SortOrder.keysOf_remap` — a renumbered order sees of renumbered rows what it saw before.
-/

namespace QueryPlanner

open Value (TransitiveOn)

namespace SortOrder

/-! ### What an order sees of a row -/

/-- The values of a row in the columns of an order, with their directions. -/
def keysOf (order : SortOrder) (row : Row) : List (Option Value × Direction) :=
  order.map fun k => (row[k.column]?, k.direction)

/-- **Rows are compared by what the order sees of them.** -/
theorem compareRows_of_keysOf_eq {a b x y : Row} : ∀ {order order' : SortOrder},
    order'.keysOf x = order.keysOf a → order'.keysOf y = order.keysOf b →
    order'.compareRows x y = order.compareRows a b := by
  intro order
  induction order with
  | nil =>
    intro order' hx _
    rw [List.map_eq_nil_iff.mp hx]
    rfl
  | cons k ks ih =>
    intro order' hx hy
    cases order' with
    | nil => cases hx
    | cons k' ks' =>
      simp only [keysOf, List.map_cons, List.cons.injEq, Prod.mk.injEq] at hx hy
      have hfirst : compareBy k' x y = compareBy k a b := by
        simp only [compareBy, hx.1.1, hx.1.2, hy.1.1]
      rw [compareRows, compareRows, hfirst, ih hx.2 hy.2]

/-- A row has all columns of an order, with values in a set. -/
def HasKeys (S : Set Value) (order : SortOrder) (row : Row) : Prop :=
  ∀ k ∈ order, ∃ v ∈ S, row[k.column]? = some v

variable {S : Set Value} {order order' : SortOrder} {row x : Row}

theorem hasKeys_iff : order.HasKeys S row ↔ ∀ c ∈ order.keysOf row, ∃ v ∈ S, c.1 = some v := by
  simp [HasKeys, keysOf]

theorem HasKeys.of_keysOf_eq (h : order.HasKeys S row) (hx : order'.keysOf x = order.keysOf row) :
    order'.HasKeys S x := by
  rw [hasKeys_iff, hx, ← hasKeys_iff]
  exact h

theorem HasKeys.lt_length (h : order.HasKeys S row) {k : SortKey} (hk : k ∈ order) :
    k.column < row.length := by
  obtain ⟨v, _, hv⟩ := h k hk
  exact (List.getElem?_eq_some_iff.mp hv).1

theorem hasKeys_of_lt_length (hrange : ∀ k ∈ order, k.column < row.length)
    (hvalues : ∀ v ∈ row, v ∈ S) : order.HasKeys S row := by
  intro k hk
  have hlt := hrange k hk
  exact ⟨row[k.column], hvalues _ (List.getElem_mem hlt), List.getElem?_eq_getElem hlt⟩

/-- Further columns on the right are not seen. -/
theorem HasKeys.keysOf_append (h : order.HasKeys S row) (extra : Row) :
    order.keysOf (row ++ extra) = order.keysOf row := by
  refine List.map_congr_left fun k hk => ?_
  rw [List.getElem?_append_left (h.lt_length hk)]

theorem HasKeys.append (h : order.HasKeys S row) (extra : Row) : order.HasKeys S (row ++ extra) :=
  h.of_keysOf_eq (h.keysOf_append extra)

/-- Rows that have the columns of an order are ordered by a total preorder. -/
theorem ordersOn_hasKeys (hS : TransitiveOn S) (order : SortOrder) :
    OrdersOn order.le {row | order.HasKeys S row} := by
  have hcompares : order.Compares S {row | order.HasKeys S row} :=
    fun k hk => Or.inl fun row hrow => hrow k hk
  exact hcompares.ordersOn hS

/-! ### Sorted rows -/

variable {rows : List Row}

@[simp] theorem sort_nil (rows : List Row) : sort [] rows = rows :=
  List.mergeSort_of_pairwise (List.pairwise_of_forall fun _ _ => rfl)

/-- **Sorting leaves rows as they are exactly if no row is out of place.** -/
theorem sort_eq_self_iff (hS : TransitiveOn S) (hrows : ∀ row ∈ rows, order.HasKeys S row) :
    order.sort rows = rows ↔ rows.Pairwise fun a b => order.le a b := by
  constructor
  · intro h
    rw [← h]
    exact (ordersOn_hasKeys hS order).pairwise_mergeSort hrows
  · exact List.mergeSort_of_pairwise

/-- Sorted rows can be told from the rows they are made of: none is out of place, and those that tie
come as they came before. -/
theorem sort_eq_of_ties {sorted : List Row}
    (h : (∀ row ∈ rows, (∀ k ∈ order, k.column < row.length) ∧ ∀ v ∈ row, v.isFloat = false) ∧
      (∀ row ∈ sorted, row ∈ rows) ∧ (sorted.Pairwise fun a b => order.le a b) ∧
      ∀ row ∈ rows, sorted.filter (ties order.le row) = rows.filter (ties order.le row)) :
    order.sort rows = sorted := by
  obtain ⟨hrows, hmem, hsorted, hties⟩ := h
  have hkeys : ∀ row ∈ rows, order.HasKeys {v | v.isFloat = false} row :=
    fun row hrow => hasKeys_of_lt_length (hrows row hrow).1 (hrows row hrow).2
  exact ((ordersOn_hasKeys Value.transitiveOn_not_isFloat order).eq_mergeSort hkeys hmem hsorted
    hties).symm

theorem sort_sort (hS : TransitiveOn S) (hrows : ∀ row ∈ rows, order.HasKeys S row) :
    order.sort (order.sort rows) = order.sort rows := by
  rw [sort_eq_self_iff hS fun row hrow => hrows row (mem_sort.mp hrow)]
  exact (ordersOn_hasKeys hS order).pairwise_mergeSort hrows

/-- Rows of which none comes after a greater neighbour are not changed by sorting. -/
theorem sort_of_isSorted (hS : TransitiveOn S) (hrows : ∀ row ∈ rows, order.HasKeys S row)
    (h : order.isSorted rows) : order.sort rows = rows := by
  have hpairwise : rows.Pairwise fun a b => order.le a b := by
    -- The order is transitive, so comparing neighbours compares all rows.
    fun_induction isSorted order rows with
    | case1 a c rest ih =>
      rw [Bool.and_eq_true] at h
      have hrest := ih (fun row hrow => hrows row (by simp [hrow])) h.2
      refine List.pairwise_cons.mpr ⟨fun r hr => ?_, hrest⟩
      rcases List.mem_cons.mp hr with rfl | hr
      · exact h.1
      · exact (ordersOn_hasKeys hS order).trans a (hrows a (by simp)) c (hrows c (by simp)) r
          (hrows r (by simp [hr])) h.1 ((List.pairwise_cons.mp hrest).1 r hr)
    | case2 rows hnot =>
      match rows, hnot with
      | [], _ => exact List.Pairwise.nil
      | [a], _ => exact List.pairwise_singleton _ a
      | a :: c :: rest, hnot => exact absurd rfl (hnot a c rest)
  exact (sort_eq_self_iff hS hrows).mpr hpairwise

/-- Sorted rows are sorted by neighbours. -/
theorem isSorted_of_sort_eq (hS : TransitiveOn S) (hrows : ∀ row ∈ rows, order.HasKeys S row)
    (h : order.sort rows = rows) : order.isSorted rows := by
  have hpairwise := (sort_eq_self_iff hS hrows).mp h
  fun_induction isSorted order rows with
  | case1 a c rest ih =>
    obtain ⟨hfirst, hrest⟩ := List.pairwise_cons.mp hpairwise
    rw [Bool.and_eq_true]
    have hkeys : ∀ row ∈ c :: rest, order.HasKeys S row :=
      fun row hrow => hrows row (by simp [hrow])
    exact ⟨hfirst c (by simp), ih hkeys ((sort_eq_self_iff hS hkeys).mpr hrest) hrest⟩
  | case2 rows hnot => rfl

/-- Without ties, sorted rows depend on the rows alone and not on the order they came in. -/
theorem Tieless.sort_eq (hS : TransitiveOn S) {given : List Row} (h : order.Tieless rows)
    (hrows : ∀ row ∈ rows, order.HasKeys S row) (hperm : given.Perm rows) :
    order.sort given = order.sort rows :=
  (ordersOn_hasKeys hS order).mergeSort_eq_of_perm hrows hperm fun _ ha _ hc => h.eq_of_le ha hc

theorem compareRows_append (a b : Row) : ∀ start rest : SortOrder,
    (start ++ rest).compareRows a b = (start.compareRows a b).then (rest.compareRows a b) := by
  intro start rest
  induction start with
  | nil => rfl
  | cons k ks ih => rw [List.cons_append, compareRows, ih, compareRows, Ordering.then_assoc]

/-- Rows that come in an order come in every order that begins it. -/
theorem sort_eq_self_of_append (hS : TransitiveOn S) {start rest : SortOrder}
    (hrows : ∀ row ∈ rows, (start ++ rest).HasKeys S row) (h : (start ++ rest).sort rows = rows) :
    start.sort rows = rows := by
  have hstart : ∀ row ∈ rows, start.HasKeys S row :=
    fun row hrow k hk => hrows row hrow k (List.mem_append_left _ hk)
  rw [sort_eq_self_iff hS hrows] at h
  refine (sort_eq_self_iff hS hstart).mpr (h.imp fun {a b} hab => ?_)
  rw [le_eq_isLE, compareRows_append, Ordering.isLE_then_iff_and] at hab
  rw [le_eq_isLE]
  exact hab.1

/-! ### Renumbered columns -/

variable {mapping : List Nat}

/-- If all columns of an order are selected, so is the first one, and so are the others. -/
theorem exists_remap_cons {k : SortKey} {ks : SortOrder} (h : (remap mapping (k :: ks)).2 = none) :
    ∃ position, mapping.idxOf? k.column = some position ∧ (remap mapping ks).2 = none ∧
      (remap mapping (k :: ks)).1 = ⟨position, k.direction⟩ :: (remap mapping ks).1 := by
  rw [remap] at h ⊢
  cases hposition : mapping.idxOf? k.column with
  | none => simp [hposition] at h
  | some position =>
    simp only [hposition] at h ⊢
    exact ⟨position, rfl, h, rfl⟩

/-- **A renumbered order sees of a row with renumbered columns what it saw before.** -/
theorem keysOf_remap {row out : Row}
    (hout : ∀ i : Nat, out[i]? = mapping[i]?.bind fun c => row[c]?) :
    ∀ {order : SortOrder}, (order.remap mapping).2 = none →
      (order.remap mapping).1.keysOf out = order.keysOf row := by
  intro order
  induction order with
  | nil => intro _; rfl
  | cons k ks ih =>
    intro hnone
    obtain ⟨position, hposition, hrest, hremap⟩ := exists_remap_cons hnone
    have hcolumn : mapping[position]? = some k.column := by
      obtain ⟨hlt, heq, _⟩ := List.idxOf?_eq_some_iff.mp hposition
      rw [List.getElem?_eq_getElem hlt, heq]
    have hvalue : out[position]? = row[k.column]? := by rw [hout, hcolumn, Option.bind_some]
    rw [hremap]
    simp only [keysOf, List.map_cons, hvalue]
    exact congrArg _ (ih hrest)

/-- The keys before the first one that is not selected are selected. -/
theorem exists_remap_append (mapping : List Nat) : ∀ order : SortOrder, ∃ start rest,
    order = start ++ rest ∧ start.remap mapping = ((order.remap mapping).1, none) := by
  intro order
  induction order with
  | nil => exact ⟨[], [], rfl, rfl⟩
  | cons k ks ih =>
    cases hposition : mapping.idxOf? k.column with
    | none => exact ⟨[], k :: ks, rfl, by simp [remap, hposition]⟩
    | some position =>
      obtain ⟨start, rest, rfl, hstart⟩ := ih
      exact ⟨k :: start, rest, rfl, by simp [remap, hposition, hstart]⟩

/-- An order of which all columns are selected keeps its length. -/
theorem length_remap : ∀ {order : SortOrder}, (order.remap mapping).2 = none →
    (order.remap mapping).1.length = order.length := by
  intro order
  induction order with
  | nil => intro _; rfl
  | cons k ks ih =>
    intro hnone
    obtain ⟨position, -, hrest, hremap⟩ := exists_remap_cons hnone
    rw [hremap, List.length_cons, List.length_cons, ih hrest]

end SortOrder

end QueryPlanner
