import Mathlib.Data.List.Induction
import QueryPlanner.Paging.Collapse
import QueryPlanner.Proofs.Ordering.Arrangement
import QueryPlanner.Proofs.Run.Contexts
import QueryPlanner.Proofs.Run.Widths

/-!
# Collapsed paging gives the same rows

A window followed by a further skip or take is a window again, so the window of a chain passes the
rows that the chain passes.  The number of skipped rows stops growing at the largest count; that is
a count of which no list of rows that fits into memory has more, so nothing is left to skip by then.
Where rows are numbered for a dialect without paging, the selection that drops the number again
gives the rows back because they are as wide as their header says.

## Main definitions

* `Window.after?` — the window that an operator makes of the window before it, if the operator
  pages.

## Main results

* `Window.rows_skip`, `Window.rows_take` — what a longer chain passes.
* `Window.run_applyWith` — a window is applied whatever steps a dialect has.
* `Plan.run_peelPaging` — a plan gives what its window passes of the plan below its chain.
* `Plan.run_collapsePaging` — **collapsing paging keeps the rows or the fault of a plan, and its
  header**.
-/

namespace QueryPlanner

/-! ### Windows -/

namespace Window

section Rows

variable {α β : Type}

@[simp] theorem rows_unbounded (items : List α) : unbounded.rows items = items := rfl

theorem map_rows_unbounded (x : Except Fault (List α)) : unbounded.rows <$> x = x := by
  cases x <;> rfl

theorem rows_of_isUnbounded {w : Window} (h : w.isUnbounded) (items : List α) :
    w.rows items = items := by
  obtain ⟨skipped, taken⟩ := w
  simp only [isUnbounded, Bool.and_eq_true, beq_iff_eq, Option.isNone_iff_eq_none] at h
  obtain ⟨rfl, rfl⟩ := h
  rfl

theorem mem_of_mem_rows {w : Window} {items : List α} {a : α} (h : a ∈ w.rows items) :
    a ∈ items := by
  unfold rows at h
  split at h
  · exact List.mem_of_mem_drop h
  · exact List.mem_of_mem_drop (List.mem_of_mem_take h)

theorem rows_map (w : Window) (f : α → β) (items : List α) :
    w.rows (items.map f) = (w.rows items).map f := by
  unfold rows
  cases w.taken with
  | none => exact List.map_drop.symm
  | some t => rw [← List.map_drop, List.map_take]

theorem rows_take (w : Window) (count : Nat) (items : List α) :
    (w.take count).rows items = (w.rows items).take count := by
  cases htaken : w.taken with
  | none => simp only [rows, take, htaken]
  | some t => simp only [rows, take, htaken, List.take_take, Nat.min_comm]

/-- **A further skip skips further rows**, of any list that is no longer than the largest count. -/
theorem rows_skip (w : Window) (count : Nat) {items : List α} (hitems : items.length ≤ maxCount) :
    (w.skip count).rows items = (w.rows items).drop count := by
  have hdrop : items.drop (min (w.skipped + count) maxCount) =
      (items.drop w.skipped).drop count := by
    rw [List.drop_drop]
    by_cases hmax : w.skipped + count ≤ maxCount
    · rw [Nat.min_eq_left hmax]
    · -- The count no longer grows, but then both skip the whole list.
      rw [Nat.min_eq_right (by omega), List.drop_eq_nil_of_le hitems,
        List.drop_eq_nil_of_le (by omega)]
  cases htaken : w.taken with
  | none => simp only [rows, skip, htaken, Option.map_none, hdrop]
  | some t => simp only [rows, skip, htaken, Option.map_some, hdrop, List.drop_take]

end Rows

/-- The window that passes what an operator passes of the rows of a window, if the operator pages.
-/
def after? (w : Window) : Unary → Option Window
  | .skip count => some (w.skip count)
  | .take count => some (w.take count)
  | .page before count => some ((w.skip before).take count)
  | _ => none

theorem run_of_after? {w w' : Window} {op : Unary} (h : w.after? op = some w') {b : Bindings}
    {items : List Row} (hitems : items.length ≤ maxCount) :
    op.run b (w.rows items) = .ok (w'.rows items) := by
  cases op with
  | skip count =>
    obtain rfl := Option.some.inj h
    rw [rows_skip w count hitems, Unary.run]
  | take count =>
    obtain rfl := Option.some.inj h
    rw [rows_take, Unary.run]
  | page before count =>
    obtain rfl := Option.some.inj h
    rw [rows_take, rows_skip w before hitems, Unary.run]
  | _ => cases h

theorem header_of_after? {w w' : Window} {op : Unary} (h : w.after? op = some w')
    (header : Header) : op.header header = header := by
  cases op <;> first | rfl | cases h

/-! ### Applying windows -/

variable {store : Store} {b : Bindings}

theorem run_apply (w : Window) (p : Plan) :
    (w.apply p).run store b = w.rows <$> p.run store b := by
  obtain ⟨skipped, taken⟩ := w
  cases hrun : p.run store b with
  | error e => cases skipped <;> cases taken <;> simp [apply, Plan.run, hrun]
  | ok rows =>
    cases skipped <;> cases taken <;> simp [apply, Plan.run, hrun, Unary.run, Window.rows]

@[simp] theorem header_apply (w : Window) (p : Plan) : (w.apply p).header = p.header := by
  obtain ⟨skipped, taken⟩ := w
  cases skipped <;> cases taken <;> rfl

theorem fits_apply (w : Window) {p : Plan} (h : p.Fits store) : (w.apply p).Fits store := by
  obtain ⟨skipped, taken⟩ := w
  cases skipped <;> cases taken <;> exact h

end Window

/-! ### Selecting the first columns -/

theorem Row.exists_project {row : Row} : ∀ {columns : List Nat}, (∀ c ∈ columns, c < row.length) →
    ∃ out, Row.project row columns = .ok out := by
  intro columns
  induction columns with
  | nil => intro _; exact ⟨[], rfl⟩
  | cons c columns ih =>
    intro h
    obtain ⟨out, hout⟩ := ih fun d hd => h d (by simp [hd])
    have hc : Row.column row c = .ok (row.get ⟨c, h c (by simp)⟩) :=
      Row.column_eq_ok_iff.mpr (List.getElem?_eq_getElem _)
    exact ⟨_ :: out, by rw [Row.project, hc, ok_bind, hout, ok_bind, pure_eq_ok]⟩

theorem Row.project_range {row : Row} {n : Nat} (h : n ≤ row.length) :
    Row.project row (List.range n) = .ok (row.take n) := by
  have hcolumns : ∀ c ∈ List.range n, c < row.length :=
    fun c hc => Nat.lt_of_lt_of_le (List.mem_range.mp hc) h
  obtain ⟨out, hout⟩ := Row.exists_project hcolumns
  have hsame : out = row.take n := by
    refine List.ext_getElem? fun i => ?_
    rw [Row.getElem?_project hout, List.getElem?_take]
    by_cases hi : i < n
    · simp [hi]
    · simp [hi]
  rw [hout, hsame]

/-- Without their numbers, numbered rows are the rows. -/
theorem map_take_numbered {rows : List Row} {n : Nat} (hrows : ∀ row ∈ rows, row.length = n) :
    (numbered rows).map (fun row => row.take n) = rows := by
  rw [numbered, List.map_map]
  refine Eq.trans (List.map_congr_left fun r hr => ?_) (List.zipIdx_map_fst 0 rows)
  exact List.take_left' (hrows r.1 (List.fst_mem_of_mem_zipIdx hr))

theorem idxOf?_range {n c : Nat} (h : c < n) : (List.range n).idxOf? c = some c := by
  rw [List.idxOf?_eq_some_iff]
  refine ⟨by simpa using h, by simp, fun j hj => by simp; omega⟩

theorem SortOrder.remap_range {n : Nat} : ∀ {order : SortOrder}, (∀ k ∈ order, k.column < n) →
    order.remap (List.range n) = (order, none) := by
  intro order
  induction order with
  | nil => intro _; rfl
  | cons k ks ih =>
    intro h
    simp only [remap, idxOf?_range (h k (by simp)), ih fun d hd => h d (by simp [hd])]

/-- The items at the positions of a list are those of the list, whatever follows it. -/
theorem filterMap_range_append {α : Type} : ∀ items extra : List α,
    ((List.range items.length).filterMap fun i => (items ++ extra)[i]?) = items := by
  intro items
  induction items using List.reverseRecOn with
  | nil => intro extra; rfl
  | append_singleton items a ih =>
    intro extra
    have hlast : (items ++ a :: extra)[items.length]? = some a := by simp
    rw [List.length_append, List.length_singleton, List.range_succ, List.filterMap_append,
      List.append_assoc, List.singleton_append, ih (a :: extra), List.filterMap_cons, hlast,
      List.filterMap_nil]

namespace Header

theorem columns_select_range (h : Header) (extra : Column) :
    ((h.append [extra]).select (List.range h.width)).columns = h.columns :=
  filterMap_range_append h.columns [extra]

/-- **Numbering rows and dropping the numbers keeps the header** if its order is by columns it has.
-/
theorem select_range {h : Header} (horder : ∀ k ∈ h.order, k.column < h.width) (extra : Column) :
    (h.append [extra]).select (List.range h.width) = h := by
  have hcolumns := h.columns_select_range extra
  have hremap : (h.append [extra]).order.remap (List.range h.width) = (h.order, none) :=
    SortOrder.remap_range horder
  rw [select, hremap]
  exact congrArg (Header.mk · h.order) hcolumns

end Header

namespace Window

variable {store : Store} {b : Bindings} {support : PagingSupport} {w : Window} {p : Plan}

/-- **A window is applied whatever steps a dialect has.** -/
theorem run_applyWith (support : PagingSupport) (w : Window)
    (hwidth : ∀ rows, p.run store b = .ok rows → ∀ row ∈ rows, row.length = p.header.width) :
    (w.applyWith support p).run store b = w.rows <$> p.run store b := by
  unfold applyWith
  split
  · rename_i hunbounded
    cases p.run store b with
    | error e => rfl
    | ok rows => rw [Except.map_ok, rows_of_isUnbounded hunbounded]
  split
  · exact w.run_apply p
  · -- The rows are numbered, and of those that pass the numbers are dropped.
    rw [Plan.run, run_apply, Plan.run]
    cases hrun : p.run store b with
    | error e => rfl
    | ok rows =>
      have hrows := hwidth rows hrun
      simp only [ok_bind, Unary.run, Except.map_ok]
      refine mapRows_eq_ok_iff.mpr ⟨fun row => row.take p.header.width, fun row hrow => ?_, ?_⟩
      · obtain ⟨r, hr, rfl⟩ := List.mem_map.mp (mem_of_mem_rows hrow)
        refine Row.project_range ?_
        rw [List.length_append, hrows r.1 (List.fst_mem_of_mem_zipIdx hr)]
        exact Nat.le_add_right _ _
      · rw [← rows_map, map_take_numbered hrows]

theorem columns_applyWith (support : PagingSupport) (w : Window) (p : Plan) :
    (w.applyWith support p).header.columns = p.header.columns := by
  unfold applyWith
  split
  · rfl
  split
  · rw [header_apply]
  · rw [Plan.header, header_apply]
    exact p.header.columns_select_range _

theorem header_applyWith (support : PagingSupport) (w : Window)
    (horder : ∀ k ∈ p.header.order, k.column < p.header.width) :
    (w.applyWith support p).header = p.header := by
  unfold applyWith
  split
  · rfl
  split
  · rw [header_apply]
  · rw [Plan.header, header_apply]
    exact Header.select_range horder _

theorem fits_applyWith (support : PagingSupport) (w : Window) (h : p.Fits store) :
    (w.applyWith support p).Fits store := by
  unfold applyWith
  split
  · exact h
  split
  · exact w.fits_apply h
  · exact w.fits_apply h

end Window

/-! ### Chains -/

namespace Plan

variable {store : Store} {b : Bindings}

/-- What peeling does with an operator with one input: it joins the chain, or it ends it. -/
theorem peelPaging_unary (support : PagingSupport) (op : Unary) (input : Plan) :
    (Plan.unary op input).peelPaging support =
      match (input.peelPaging support).1.after? op with
      | some w => (w, (input.peelPaging support).2)
      | none => (.unbounded, .unary op (input.collapsePaging support)) := by
  cases op <;> rfl

theorem peelPaging_binary (support : PagingSupport) (op : Binary) (left right : Plan) :
    (Plan.binary op left right).peelPaging support =
      (.unbounded, .binary op (left.collapsePaging support) (right.collapsePaging support)) := rfl

/-- The plan below a chain has the columns of the plan. -/
theorem columns_peelPaging (support : PagingSupport) : ∀ p : Plan,
    (p.peelPaging support).2.header.columns = p.header.columns := by
  intro p
  induction p with
  | source leaf => rfl
  | unary op input ih =>
    rw [peelPaging_unary]
    split
    · -- A paging operator joins the window, and does not change the header.
      rename_i w hw
      rw [Plan.header, Window.header_of_after? hw]
      exact ih
    · -- Any other operator has the collapsed input below it, with the same columns.
      refine op.columns_header_congr ?_
      rw [collapsePaging, Window.columns_applyWith]
      exact ih
  | binary op left right ihl ihr =>
    rw [peelPaging_binary]
    refine op.columns_header_congr ?_ ?_
    · rw [collapsePaging, Window.columns_applyWith]
      exact ihl
    · rw [collapsePaging, Window.columns_applyWith]
      exact ihr

theorem columns_collapsePaging (support : PagingSupport) (p : Plan) :
    (p.collapsePaging support).header.columns = p.header.columns := by
  rw [collapsePaging, Window.columns_applyWith]
  exact columns_peelPaging support p

theorem width_collapsePaging (support : PagingSupport) (p : Plan) :
    (p.collapsePaging support).header.width = p.header.width :=
  congrArg List.length (columns_collapsePaging support p)

/-- The plan below the chain of a plan that fits does so too. -/
theorem fits_peelPaging (support : PagingSupport) : ∀ {p : Plan}, p.Fits store →
    (p.peelPaging support).2.Fits store := by
  intro p
  induction p with
  | source leaf => intro h; exact h
  | unary op input ih =>
    intro h
    rw [peelPaging_unary]
    split
    · exact ih h
    · exact Window.fits_applyWith support _ (ih h)
  | binary op left right ihl ihr =>
    intro h
    obtain ⟨hl, hr, hsides⟩ := h
    rw [peelPaging_binary]
    refine ⟨Window.fits_applyWith support _ (ihl hl), Window.fits_applyWith support _ (ihr hr), ?_⟩
    intro hop
    rw [width_collapsePaging, width_collapsePaging]
    exact hsides hop

/-- A collapsed plan has the header of the plan, if orders are by columns that are there. -/
theorem header_collapsePaging (support : PagingSupport) : ∀ {p : Plan},
    (∀ q ∈ p.subplans, ∀ k ∈ q.header.order, k.column < q.header.width) →
    (p.collapsePaging support).header = p.header := by
  -- It is enough to follow the plan below the chain: the window keeps the header of that.
  have hcollapse : ∀ {p : Plan}, (∀ k ∈ p.header.order, k.column < p.header.width) →
      (p.peelPaging support).2.header = p.header →
        (p.collapsePaging support).header = p.header := by
    intro p horder hbase
    rw [← hbase] at horder
    rw [collapsePaging, Window.header_applyWith support _ horder, hbase]
  have hpeel : ∀ {p : Plan}, (∀ q ∈ p.subplans, ∀ k ∈ q.header.order, k.column < q.header.width) →
      (p.peelPaging support).2.header = p.header := by
    intro p
    induction p with
    | source leaf => intro _; rfl
    | unary op input ih =>
      intro horder
      have hinput := ih fun q hq => horder q (by simp [subplans, hq])
      rw [peelPaging_unary]
      split
      · rename_i w hw
        rw [header, Window.header_of_after? hw, hinput]
      · rw [header, header, hcollapse (horder input (by simp [subplans])) hinput]
    | binary op left right ihl ihr =>
      intro horder
      have hleft := ihl fun q hq => horder q (by simp [subplans, hq])
      have hright := ihr fun q hq => horder q (by simp [subplans, hq])
      rw [peelPaging_binary, header, header,
        hcollapse (horder left (by simp [subplans])) hleft,
        hcollapse (horder right (by simp [subplans])) hright]
  intro p horder
  exact hcollapse (horder p (mem_subplans_self p)) (hpeel horder)

/-- A plan gives fewer rows than there are counts. -/
def IsShort (store : Store) (p : Plan) (b : Bindings) : Prop :=
  ∀ rows, p.run store b = .ok rows → rows.length < UInt64.size

theorem IsShort.length_le {p : Plan} (h : p.IsShort store b) :
    ∀ rows, p.run store b = .ok rows → rows.length ≤ Window.maxCount :=
  fun rows hrows => Nat.le_pred_of_lt (h rows hrows)

/-- A collapsed plan gives what its window passes of the plan below its chain. -/
theorem run_collapsePaging_eq (support : PagingSupport) {p : Plan} (hfits : p.Fits store) :
    (p.collapsePaging support).run store b =
      (p.peelPaging support).1.rows <$> (p.peelPaging support).2.run store b :=
  Window.run_applyWith support _ fun _ => length_of_run (fits_peelPaging support hfits)

/-- **A plan gives what its window passes of the plan below its chain.** -/
theorem run_peelPaging (support : PagingSupport) : ∀ {p : Plan} {b : Bindings}, p.Fits store →
    p.Throughout store (IsShort store) b →
    p.run store b = (p.peelPaging support).1.rows <$> (p.peelPaging support).2.run store b ∧
      ∀ rows, (p.peelPaging support).2.run store b = .ok rows → rows.length ≤ Window.maxCount := by
  intro p
  induction p with
  | source leaf =>
    intro b _ hshort
    refine ⟨?_, IsShort.length_le hshort⟩
    exact (Window.map_rows_unbounded _).symm
  | unary op input ih =>
    intro b hfits hshort
    have hinput : input.Fits store := hfits
    obtain ⟨hrun, hlength⟩ := ih hinput hshort.2
    rw [peelPaging_unary]
    split
    · -- The operator joins the chain.
      rename_i w hw
      refine ⟨?_, hlength⟩
      rw [run, hrun]
      cases hbase : (input.peelPaging support).2.run store b with
      | error e => rfl
      | ok rows => exact Window.run_of_after? hw (hlength rows hbase)
    · -- The chain below the operator is collapsed, and a new one begins.
      have hsame : (Plan.unary op (input.collapsePaging support)).run store b =
          (Plan.unary op input).run store b := by
        rw [run, run, run_collapsePaging_eq support hinput, hrun]
      rw [hsame]
      exact ⟨(Window.map_rows_unbounded _).symm, IsShort.length_le hshort.1⟩
  | binary op left right ihl ihr =>
    intro b hfits hshort
    obtain ⟨hl, hr, _⟩ := hfits
    obtain ⟨hself, hleft, hright⟩ := hshort
    have hsame : (Plan.binary op (left.collapsePaging support) (right.collapsePaging support)).run
        store b = (Plan.binary op left right).run store b := by
      refine run_binary_congr op ?_ (width_collapsePaging support right) fun b' hb' => ?_
      · rw [run_collapsePaging_eq support hl, (ihl hl hleft).1]
      · rw [run_collapsePaging_eq support hr, (ihr hr (hright b' hb')).1]
    rw [peelPaging_binary, hsame]
    exact ⟨(Window.map_rows_unbounded _).symm, hself.length_le⟩

/-- **Collapsing paging keeps the rows of a plan or its fault**, for a dialect with any steps, and
its header where orders are by columns that are there. -/
theorem run_collapsePaging (support : PagingSupport) {p : Plan} (hfits : p.Fits store)
    (hshort : p.Throughout store (IsShort store) b) :
    (p.collapsePaging support).run store b = p.run store b ∧
      ((∀ q ∈ p.subplans, ∀ k ∈ q.header.order, k.column < q.header.width) →
        (p.collapsePaging support).header = p.header) := by
  refine ⟨?_, header_collapsePaging support⟩
  rw [run_collapsePaging_eq support hfits, (run_peelPaging support hfits hshort).1]

end Plan

namespace Sample

/-- Four amounts, the least first. -/
def amounts : Plan := .source (.rows ⟨[⟨"amount", .int32, false⟩], [.asc 0]⟩
  [[.int32 10], [.int32 20], [.int32 30], [.int32 40]])

/-- Two chains side by side, and one above them. -/
def paged : Plan := .unary (.skip 1) (.unary (.take 3) (.binary .concat
  (.unary (.page 1 2) amounts) (.unary (.take 5) (.unary (.skip 2) amounts))))

/-- Without any paging of the dialect, the three chains become three selections of numbered rows. -/
theorem run_collapsePaging_paged :
    paged.Fits .empty ∧ paged.Throughout .empty (Plan.IsShort .empty) .empty ∧
      (paged.collapsePaging .neither).run .empty .empty = .ok [[.int32 30], [.int32 30]] ∧
      (paged.collapsePaging .neither).header = paged.header := by
  have hamounts : amounts.Fits .empty := by
    refine ⟨?_, fun i rows hi => by cases hi⟩
    rintro header rows ⟨⟩
    decide
  have hfits : paged.Fits .empty := ⟨hamounts, hamounts, fun _ => rfl⟩
  -- A plan is short by the one outcome that it has.
  have hshort : ∀ {p : Plan} {rows : List Row}, p.run .empty .empty = .ok rows →
      rows.length < UInt64.size → p.IsShort .empty .empty := by
    intro p rows hrun hlength rows' hrows'
    obtain rfl := Except.ok.inj (hrun.symm.trans hrows')
    exact hlength
  have hall : paged.Throughout .empty (Plan.IsShort .empty) .empty := by
    refine ⟨hshort rfl (by decide), hshort rfl (by decide), hshort rfl (by decide),
      ⟨hshort rfl (by decide), hshort rfl (by decide)⟩, fun b' hb' => ?_⟩
    obtain rfl := hb'
    exact ⟨hshort rfl (by decide), hshort rfl (by decide), hshort rfl (by decide)⟩
  obtain ⟨hrun, hheader⟩ := Plan.run_collapsePaging .neither hfits hall
  exact ⟨hfits, hall, hrun.trans rfl, hheader (by decide)⟩

end Sample

end QueryPlanner
