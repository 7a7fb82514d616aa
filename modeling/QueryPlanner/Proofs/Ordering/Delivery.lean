import QueryPlanner.Proofs.Ordering.Correction
import QueryPlanner.Proofs.Run.Widths

/-!
# Corrected plans give rows in the declared order

A plan says by its header in which order its rows come.  Executed as it is, it need not keep that
promise below a sort or a union, and a corrected plan may leave out sorts whose order nobody sees.
Where the order can be seen the promise is kept: the rows of a corrected plan come in the order of
the header of the plan, and every operator that counts rows reads rows in the order of the header of
its input.

The correction tracks the order that the header promises and whether the rows have it already.  What
carries the proof is that rows which are said to have the order do, and that an order which is due
can be sorted by, because every row has its columns.

## Main definitions

* `Plan.joinFree` — no operator puts rows of two inputs side by side.
* `Plan.consumers` — the operators of a plan that count rows, with their inputs.
* `Arranged.Upholds` — a corrected plan gives rows that come in its order, or can be sorted by it.

## Main results

* `Plan.order_of_arrange` — the order that is tracked is that of the header.
* `Plan.upholds_of_arrange` — corrected parts of a plan give rows in the order tracked for them.
* `Plan.isSorted_run_correctOrder` — **a corrected plan gives rows in the order of the header, and
  so do the inputs of all operators that count rows**.
-/

namespace QueryPlanner

open Value (TransitiveOn)

/-! ### What operators make of rows that have keys or are sorted -/

variable {S : Set Value} {order order' : SortOrder} {b : Bindings} {rows out : List Row}

/-- An operation that takes sorted rows to sorted rows leaves rows sorted that are. -/
theorem Carries.sort_eq {f : List Row → Except Fault (List Row)} (h : Carries S order order' f)
    (hvalues : ∀ row ∈ rows, ∀ v ∈ row, v ∈ S) (hkeys : ∀ row ∈ rows, order.HasKeys S row)
    (hsorted : order.sort rows = rows) (hout : f rows = .ok out) : order'.sort out = out := by
  obtain ⟨out', hout', hsort, _⟩ := h rows out hvalues hkeys (by rw [hsorted, hout])
  rw [hout] at hout'
  obtain rfl := Except.ok.inj hout'
  exact hsort

/-- Selected columns have the keys that are left of an order. -/
theorem SortOrder.HasKeys.remap {row key : Row} {mapping : List Nat} (h : order.HasKeys S row)
    (hkey : Row.project row mapping = .ok key) : (order.remap mapping).1.HasKeys S key := by
  obtain ⟨start, rest, rfl, hstart⟩ := SortOrder.exists_remap_append mapping order
  have hhas : start.HasKeys S row := fun k hk => h k (List.mem_append_left _ hk)
  have hnone : (start.remap mapping).2 = none := by rw [hstart]
  have hsees := SortOrder.keysOf_remap (Row.getElem?_project hkey) hnone
  rw [hstart] at hsees
  exact hhas.of_keysOf_eq hsees

namespace Unary

variable {op : Unary}

theorem hasKeys_of_keepsPlaces (hop : op.keepsPlaces) (hkeys : ∀ row ∈ rows, order.HasKeys S row)
    (hout : op.run b rows = .ok out) : ∀ row ∈ out, order.HasKeys S row := by
  intro x hx
  cases op with
  | filter predicate =>
    obtain ⟨f, _, rfl⟩ := keepRows_eq_ok_iff.mp hout
    exact hkeys x (List.mem_filter.mp hx).1
  | calculate columns =>
    obtain ⟨g, hg, rfl⟩ := mapRows_eq_ok_iff.mp hout
    obtain ⟨row, hrow, rfl⟩ := List.mem_map.mp hx
    obtain ⟨values, _, hmade⟩ := bind_eq_ok_iff.mp (hg row hrow)
    rw [← Except.ok.inj hmade]
    exact (hkeys row hrow).append values
  | rename name =>
    obtain rfl := Except.ok.inj hout
    exact hkeys x hx
  | distinct =>
    obtain rfl := Except.ok.inj hout
    exact hkeys x ((distinctRows_sublist _).subset hx)
  | _ => cases hop

theorem hasKeys_of_mapping {mapping : List Nat} (hop : op.mapping? = some mapping)
    (hkeys : ∀ row ∈ rows, order.HasKeys S row) (hout : op.run b rows = .ok out) :
    ∀ row ∈ out, (order.remap mapping).1.HasKeys S row := by
  intro x hx
  cases op with
  | select columns =>
    obtain rfl := Option.some.inj hop
    obtain ⟨g, hg, rfl⟩ := mapRows_eq_ok_iff.mp hout
    obtain ⟨row, hrow, rfl⟩ := List.mem_map.mp hx
    exact (hkeys row hrow).remap (hg row hrow)
  | aggregate columns aggregates =>
    obtain rfl := Option.some.inj hop
    obtain ⟨groups, hgroups, hout⟩ := bind_eq_ok_iff.mp hout
    obtain ⟨g, hg, values, _, rfl⟩ := Group.mem_summarize hout x hx
    obtain ⟨g', hg', _⟩ | ⟨row, hrow, hkey⟩ := Group.key_of_mem_collect hgroups g hg
    · cases hg'
    · exact ((hkeys row hrow).remap hkey).append values
  | _ => cases hop

/-- An operator that renumbers columns leaves sorted rows sorted by what is left of their order. -/
theorem sort_run_of_mapping (hS : TransitiveOn S) {mapping : List Nat}
    (hop : op.mapping? = some mapping) (hvalues : ∀ row ∈ rows, ∀ v ∈ row, v ∈ S)
    (hkeys : ∀ row ∈ rows, order.HasKeys S row) (hsorted : order.sort rows = rows)
    (hout : op.run b rows = .ok out) : (order.remap mapping).1.sort out = out := by
  -- The rows come in the keys before the first one that is dropped, and those are renumbered.
  obtain ⟨start, rest, horder, hstart⟩ := SortOrder.exists_remap_append mapping order
  have hnone : (start.remap mapping).2 = none := by rw [hstart]
  rw [horder] at hkeys hsorted
  have hsorted' := (Unary.carries_of_mapping hS hop hnone).sort_eq hvalues
    (fun row hrow k hk => hkeys row hrow k (List.mem_append_left _ hk))
    (SortOrder.sort_eq_self_of_append hS hkeys hsorted) hout
  rw [hstart] at hsorted'
  exact hsorted'

end Unary

/-! ### Plans without joins -/

namespace Plan

/-- Whether no operator puts rows of two inputs side by side. -/
def joinFree : Plan → Bool
  | .source _ => true
  | .unary _ input => input.joinFree
  | .binary op left right => !op.isJoin && left.joinFree && right.joinFree

variable {store : Tables} {p : Plan}

/-- The operators of a plan that count rows, outermost first and from the left, with their inputs.
-/
def consumers : Plan → List (Unary × Plan)
  | .source _ => []
  | .unary op input => if op.needsOrder then (op, input) :: input.consumers else input.consumers
  | .binary _ left right => left.consumers ++ right.consumers

/-! ### What the correction keeps -/

/-- Leaves that fit read rows that can be compared. -/
theorem comparable_source {leaf : Source} (hfits : leaf.Fits store)
    (hvalues : (Plan.source leaf).GivesIn store S b) : (Plan.source leaf).Comparable store S b := by
  refine ⟨hvalues, ?_, fun _ _ _ h => by cases h⟩
  rintro leaf' ⟨⟩ _ row hrow
  cases hi : leaf.index? with
  | some i =>
    rw [Source.header_of_index? hi]
    rw [Source.stock_of_index? hi] at hrow
    cases htable : store.table? i with
    | none => simp [htable] at hrow
    | some table =>
      rw [htable, Option.getD_some] at hrow
      exact Nat.le_of_eq (hfits.length_of_table hi htable row hrow).symm
  | none =>
    cases leaf with
    | rows header given => exact Nat.le_of_eq (hfits.given header given rfl row hrow).symm
    | _ => cases hi

/-- The order that is tracked is that of the header. -/
theorem order_of_arrange : ∀ {p : Plan} {isNeeded : Bool} {demand : Demand} {a : Arranged},
    p.arrange .standard isNeeded demand = .ok a → p.joinFree → a.order = p.header.order := by
  -- Putting a due sort back does not change what is recorded of the order.
  have hfinish : ∀ (a : Arranged) (isNeeded : Bool),
      (a.finish .keeps isNeeded).order = a.order := by
    intro a isNeeded
    rw [Arranged.finish_keeps]
    split <;> rfl
  intro p
  induction p with
  | source leaf =>
    intro isNeeded demand a h _
    obtain rfl := arrange_source h
    rfl
  | unary op input ih =>
    intro isNeeded demand a h hjoins
    rcases arrange_unary h with ⟨order, child, rfl, hchild, rfl⟩ | ⟨child, hop, hchild, rfl⟩ |
      ⟨mapping, child, step, hop, hchild, hstep, rfl⟩ | ⟨child, hop, hchild, rfl⟩
    · exact hfinish _ isNeeded
    · have horder := ih hchild hjoins
      cases op <;> first | exact horder | cases hop
    · obtain ⟨base, hbase, _, rfl⟩ := Arranged.project_cases hstep
      have horder : base.order = input.header.order := by
        rw [← ih hchild hjoins]
        rcases hbase with rfl | ⟨rfl, _⟩ <;> rfl
      rw [hfinish, horder]
      cases op <;> first | (obtain rfl := Option.some.inj hop; rfl) | cases hop
    · have horder := ih hchild hjoins
      rw [hfinish]
      cases op <;> first | exact horder | cases hop
  | binary op left right ihl ihr =>
    intro isNeeded demand a h hjoins
    rcases arrange_binary h with ⟨l, r, hop, _, _, rfl⟩ | ⟨l, r, hop, _, _, rfl⟩
    · -- There are no joins.
      simp [joinFree, hop] at hjoins
    · cases op <;> first | rfl | cases hop

/-- Nothing is due above a corrected plan that stands below an operator which needs its order. -/
theorem not_isDue_of_arrange : ∀ {p : Plan} {demand : Demand} {a : Arranged},
    p.arrange .standard true demand = .ok a → a.isDue = false := by
  -- Where the order is needed, a due sort is put back at once.
  have hfinish : ∀ a : Arranged, (a.finish .keeps true).isDue = false := by
    intro a
    rw [Arranged.finish_keeps, Bool.true_and]
    split
    · simp [Arranged.settle, Arranged.isDue]
    · rename_i hdue
      exact Bool.eq_false_iff.mpr hdue
  intro p
  induction p with
  | source leaf =>
    intro demand a h
    obtain rfl := arrange_source h
    simp [Arranged.isDue]
  | unary op input ih =>
    intro demand a h
    rcases arrange_unary h with ⟨order, child, _, _, rfl⟩ | ⟨child, _, hchild, rfl⟩ |
      ⟨mapping, child, step, _, _, _, rfl⟩ | ⟨child, _, _, rfl⟩
    · exact hfinish _
    · -- Below an operator that counts rows the order was needed already.
      have hdue := ih hchild
      exact hdue
    · exact hfinish _
    · exact hfinish _
  | binary op left right _ _ =>
    intro demand a h
    rcases arrange_binary h with ⟨l, r, _, _, _, rfl⟩ | ⟨l, r, _, _, _, rfl⟩
    · exact hfinish _
    · rfl

theorem fits_finish (a : Arranged) (isNeeded : Bool) (h : a.plan.Fits store) :
    (a.finish .keeps isNeeded).plan.Fits store := by
  rw [Arranged.finish_keeps]
  split <;> exact h

/-- Corrected plans fit if the plan does. -/
theorem fits_of_arrange : ∀ {p : Plan} {isNeeded : Bool} {demand : Demand} {a : Arranged},
    p.arrange .standard isNeeded demand = .ok a → p.Fits store → a.plan.Fits store := by
  intro p
  induction p with
  | source leaf =>
    intro isNeeded demand a h hfits
    obtain rfl := arrange_source h
    exact hfits
  | unary op input ih =>
    intro isNeeded demand a h hfits
    rcases arrange_unary h with ⟨order, child, _, hchild, rfl⟩ | ⟨child, _, hchild, rfl⟩ |
      ⟨mapping, child, step, _, hchild, hstep, rfl⟩ | ⟨child, _, hchild, rfl⟩
    · have hchildFits := ih hchild hfits
      exact fits_finish _ isNeeded hchildFits
    · have hchildFits := ih hchild hfits
      exact hchildFits
    · have hchildFits := ih hchild hfits
      obtain ⟨base, hbase, _, rfl⟩ := Arranged.project_cases hstep
      have hbaseFits : base.plan.Fits store := by
        rcases hbase with rfl | ⟨rfl, _⟩ <;> exact hchildFits
      exact fits_finish _ isNeeded hbaseFits
    · have hchildFits := ih hchild hfits
      exact fits_finish _ isNeeded hchildFits
  | binary op left right ihl ihr =>
    intro isNeeded demand a h hfits
    obtain ⟨hl, hr, hsides⟩ := hfits
    -- The inputs keep their columns, so both sides still have the same width.
    have hboth : ∀ {demand : Demand} {l r : Arranged}, left.arrange .standard false demand = .ok l →
        right.arrange .standard false demand = .ok r →
          (Plan.binary op l.plan r.plan).Fits store := by
      intro demand l r hleft hright
      refine ⟨ihl hleft hl, ihr hright hr, fun hop => ?_⟩
      rw [Header.width, Header.width, columns_of_arrange hleft, columns_of_arrange hright]
      exact hsides hop
    rcases arrange_binary h with ⟨l, r, _, hleft, hright, rfl⟩ | ⟨l, r, _, hleft, hright, rfl⟩
    · exact fits_finish _ isNeeded (hboth hleft hright)
    · exact hboth hleft hright

end Plan

/-! ### Rows in the order tracked for them -/

/-- The rows of a corrected plan have the columns of its order, and come in it if it is settled. -/
structure Arranged.Upholds (store : Store) (S : Set Value) (b : Bindings) (a : Arranged) :
    Prop where
  keys : ∀ rows, a.plan.run store b = .ok rows → ∀ row ∈ rows, a.order.HasKeys S row
  sorted : a.isSettled → ∀ rows, a.plan.run store b = .ok rows → a.order.sort rows = rows

namespace Arranged.Upholds

variable {store : Store} {a : Arranged} {op : Unary}

/-- Rows come in their order if no sort is due: it is settled, or there is no order. -/
theorem sort_run (h : a.Upholds store S b) (hdue : a.isDue = false)
    (hrun : a.plan.run store b = .ok rows) : a.order.sort rows = rows := by
  by_cases hsettled : a.isSettled
  · exact h.sorted hsettled rows hrun
  · have horder : a.order = [] := by simpa [isDue, hsettled] using hdue
    rw [horder, SortOrder.sort_nil]

theorem settle (hS : TransitiveOn S) (h : a.Upholds store S b) : a.settle.Upholds store S b := by
  constructor
  · intro out hout row hrow
    obtain ⟨rows, hrows, hout⟩ := bind_eq_ok_iff.mp hout
    obtain rfl := Except.ok.inj hout
    exact h.keys rows hrows row (SortOrder.mem_sort.mp hrow)
  · intro _ out hout
    obtain ⟨rows, hrows, hout⟩ := bind_eq_ok_iff.mp hout
    obtain rfl := Except.ok.inj hout
    exact SortOrder.sort_sort hS (h.keys rows hrows)

theorem finish (hS : TransitiveOn S) (h : a.Upholds store S b) (isNeeded : Bool) :
    (a.finish .keeps isNeeded).Upholds store S b := by
  rw [finish_keeps]
  split
  · exact h.settle hS
  · exact h

/-- A sort leaves its order due, unless the rows come in an order that begins with it. -/
theorem sort (hS : TransitiveOn S) (h : a.Upholds store S b)
    (hkeys : ∀ rows, a.plan.run store b = .ok rows → ∀ row ∈ rows, order.HasKeys S row) :
    (Arranged.mk a.plan order (a.isSettled && a.order.startsWith order)).Upholds store S b := by
  refine ⟨hkeys, fun hstarts rows hrun => ?_⟩
  obtain ⟨hsettled, hstarts⟩ := Bool.and_eq_true_iff.mp hstarts
  obtain ⟨rest, horder⟩ := List.isPrefixOf_iff_prefix.mp hstarts
  have hsorted := h.sorted hsettled rows hrun
  have hall := h.keys rows hrun
  rw [← horder] at hsorted hall
  exact SortOrder.sort_eq_self_of_append hS hall hsorted

/-- An operator that keeps order and places keeps what is tracked. -/
theorem keep (hS : TransitiveOn S) (h : a.Upholds store S b) (hop : op.keepsPlaces)
    (hvalues : a.plan.GivesIn store S b) :
    (Arranged.mk (.unary op a.plan) a.order a.isSettled).Upholds store S b := by
  constructor
  · intro out hout
    obtain ⟨rows, hrows, hout⟩ := bind_eq_ok_iff.mp hout
    exact Unary.hasKeys_of_keepsPlaces hop (h.keys rows hrows) hout
  · intro hsettled out hout
    obtain ⟨rows, hrows, hout⟩ := bind_eq_ok_iff.mp hout
    exact (Unary.carries_of_keepsPlaces hS hop).sort_eq (hvalues rows hrows) (h.keys rows hrows)
      (h.sorted hsettled rows hrows) hout

/-- An operator that renumbers columns keeps what is left of the order, settled or not. -/
theorem project (hS : TransitiveOn S) (h : a.Upholds store S b) {mapping : List Nat}
    (hop : op.mapping? = some mapping) (hvalues : a.plan.GivesIn store S b) :
    (Arranged.mk (.unary op a.plan) (a.order.remap mapping).1 a.isSettled).Upholds store S b := by
  constructor
  · intro out hout
    obtain ⟨rows, hrows, hout⟩ := bind_eq_ok_iff.mp hout
    exact Unary.hasKeys_of_mapping hop (h.keys rows hrows) hout
  · intro hsettled out hout
    obtain ⟨rows, hrows, hout⟩ := bind_eq_ok_iff.mp hout
    exact Unary.sort_run_of_mapping hS hop (hvalues rows hrows) (h.keys rows hrows)
      (h.sorted hsettled rows hrows) hout

/-- An operator that counts rows keeps what is tracked if nothing is due below it. -/
theorem count (hS : TransitiveOn S) (h : a.Upholds store S b) (hop : op.needsOrder)
    (hdue : a.isDue = false) :
    (Arranged.mk (.unary op a.plan) a.order a.isSettled).Upholds store S b := by
  have hcounted : ∀ out, (Plan.unary op a.plan).run store b = .ok out →
      a.order.sort out = out ∧ ∀ row ∈ out, a.order.HasKeys S row := by
    intro out hout
    obtain ⟨rows, hrows, hout⟩ := bind_eq_ok_iff.mp hout
    exact op.sort_run_of_needsOrder hop hS (h.keys rows hrows) (h.sort_run hdue hrows) hout
  exact ⟨fun out hout => (hcounted out hout).2, fun _ out hout => (hcounted out hout).1⟩

end Arranged.Upholds

/-! ### Corrected plans -/

namespace Plan

variable {store : Tables}

theorem throughout_finish {P : Plan → Bindings → Prop} (a : Arranged) (isNeeded : Bool)
    (h : (a.finish .keeps isNeeded).plan.Throughout store P b) : a.plan.Throughout store P b := by
  rw [Arranged.finish_keeps] at h
  split at h
  · exact h.2
  · exact h

/-- **Corrected parts of a plan give rows in the order tracked for them.** -/
theorem upholds_of_arrange (hS : TransitiveOn S) : ∀ {p : Plan} {isNeeded : Bool} {demand : Demand}
    {a : Arranged}, p.arrange .standard isNeeded demand = .ok a → p.joinFree →
    p.OrdersTruly store S → p.Fits store → a.plan.Throughout store (GivesIn store S) b →
    a.Upholds store S b := by
  intro p
  induction p with
  | source leaf =>
    intro isNeeded demand a h _ hp hfits hvalues
    obtain rfl := arrange_source h
    have hleaf := comparable_source hfits hvalues
    refine ⟨fun rows hrun => ?_, fun _ rows hrun => ?_⟩
    · exact (Source.sort_run hS hp hleaf hrun).2
    · exact (Source.sort_run hS hp hleaf hrun).1
  | unary op input ih =>
    intro isNeeded demand a h hjoins hp hfits hvalues
    have hinput : input.OrdersTruly store S := hp.mono fun q hq => by simp [subplans, hq]
    rcases arrange_unary h with ⟨order, child, rfl, hchild, rfl⟩ | ⟨child, hop, hchild, rfl⟩ |
      ⟨mapping, child, step, hop, hchild, hstep, rfl⟩ | ⟨child, hop, hchild, rfl⟩
    · have hvalues := throughout_finish _ isNeeded hvalues
      have hchildUpholds := ih hchild hjoins hinput hfits hvalues
      refine (hchildUpholds.sort hS fun rows hrun row hrow => ?_).finish hS isNeeded
      -- The input has the columns of the sort, and its corrected rows are as wide.
      have hwidth : child.plan.header.width = input.header.width :=
        congrArg List.length (columns_of_arrange hchild)
      refine SortOrder.hasKeys_of_lt_length (fun k hk => ?_) (hvalues.self rows hrun row hrow)
      rw [length_of_run (fits_of_arrange hchild hfits) hrun row hrow, hwidth]
      exact hp.sorts order input (mem_subplans_self _) k hk
    · exact (ih hchild hjoins hinput hfits hvalues.2).count hS hop (not_isDue_of_arrange hchild)
    · obtain ⟨base, hbase, _, rfl⟩ := Arranged.project_cases hstep
      have hvalues := throughout_finish _ isNeeded hvalues
      have hbaseUpholds : base.Upholds store S b := by
        rcases hbase with rfl | ⟨rfl, _⟩
        · exact ih hchild hjoins hinput hfits hvalues.2
        · exact (ih hchild hjoins hinput hfits hvalues.2.2).settle hS
      exact (hbaseUpholds.project hS hop hvalues.2.self).finish hS isNeeded
    · have hvalues := throughout_finish _ isNeeded hvalues
      have hchildUpholds := ih hchild hjoins hinput hfits hvalues.2
      exact (hchildUpholds.keep hS hop hvalues.2.self).finish hS isNeeded
  | binary op left right _ _ =>
    intro isNeeded demand a h hjoins _ _ _
    rcases arrange_binary h with ⟨l, r, hop, _, _, rfl⟩ | ⟨l, r, _, _, _, rfl⟩
    · simp [joinFree, hop] at hjoins
    · exact ⟨fun _ _ _ _ _ hk => absurd hk List.not_mem_nil, fun _ out _ => SortOrder.sort_nil out⟩

/-- An operator that counts rows reads rows in the order that the header of its input promised,
where the first member is the operator as it was in the plan. -/
def ReadsSorted (store : Store) (b : Bindings) (before after : Unary × Plan) : Prop :=
  after.1 = before.1 ∧
    ∃ rows, after.2.run store b = .ok rows ∧ before.2.header.order.isSorted rows

theorem consumers_unary {op : Unary} (hop : op.needsOrder = false) (input : Plan) :
    (Plan.unary op input).consumers = input.consumers := by
  simp [consumers, hop]

theorem consumers_finish (a : Arranged) (isNeeded : Bool) :
    (a.finish .keeps isNeeded).plan.consumers = a.plan.consumers := by
  rw [Arranged.finish_keeps]
  split <;> rfl

/-- A plan that is finished with a sort or without gives rows only if the plan does. -/
theorem exists_run_of_finish {a : Arranged} {isNeeded : Bool}
    (h : (a.finish .keeps isNeeded).plan.run store b = .ok out) :
    ∃ rows, a.plan.run store b = .ok rows := by
  rw [Arranged.finish_keeps] at h
  split at h
  · obtain ⟨rows, hrows, _⟩ := bind_eq_ok_iff.mp h
    exact ⟨rows, hrows⟩
  · exact ⟨out, h⟩

/-- **In a corrected plan, the operators that count rows are those of the plan, and read sorted
rows.** -/
theorem consumers_of_arrange (hS : TransitiveOn S) :
    ∀ {p : Plan} {isNeeded : Bool} {demand : Demand}
    {a : Arranged} {out : List Row}, p.arrange .standard isNeeded demand = .ok a → p.joinFree →
    p.OrdersTruly store S → p.Fits store → a.plan.Throughout store (GivesIn store S) b →
    a.plan.run store b = .ok out →
    List.Forall₂ (ReadsSorted store b) p.consumers a.plan.consumers := by
  intro p
  induction p with
  | source leaf =>
    intro isNeeded demand a out h _ _ _ _ _
    obtain rfl := arrange_source h
    exact List.Forall₂.nil
  | unary op input ih =>
    intro isNeeded demand a out h hjoins hp hfits hvalues hrun
    have hinput : input.OrdersTruly store S := hp.mono fun q hq => by simp [subplans, hq]
    rcases arrange_unary h with ⟨order, child, rfl, hchild, rfl⟩ | ⟨child, hop, hchild, rfl⟩ |
      ⟨mapping, child, step, hop, hchild, hstep, rfl⟩ | ⟨child, hop, hchild, rfl⟩
    · obtain ⟨rows, hrows⟩ := exists_run_of_finish hrun
      have hvalues := throughout_finish _ isNeeded hvalues
      have hbelow := ih hchild hjoins hinput hfits hvalues hrows
      rw [consumers_finish]
      exact hbelow
    · obtain ⟨rows, hrows, _⟩ := bind_eq_ok_iff.mp hrun
      have hupholds := upholds_of_arrange hS hchild hjoins hinput hfits hvalues.2
      have hsorted := SortOrder.isSorted_of_sort_eq hS (hupholds.keys rows hrows)
        (hupholds.sort_run (not_isDue_of_arrange hchild) hrows)
      rw [order_of_arrange hchild hjoins] at hsorted
      simp only [consumers, hop, if_true]
      exact List.Forall₂.cons ⟨rfl, rows, hrows, hsorted⟩
        (ih hchild hjoins hinput hfits hvalues.2 hrows)
    · obtain ⟨base, hbase, _, rfl⟩ := Arranged.project_cases hstep
      have hcounts : op.needsOrder = false := by
        cases op <;> first | rfl | cases hop
      obtain ⟨given, hgiven⟩ := exists_run_of_finish hrun
      obtain ⟨rows, hrows, _⟩ := bind_eq_ok_iff.mp hgiven
      have hvalues := throughout_finish _ isNeeded hvalues
      rw [consumers_finish, consumers_unary hcounts, consumers_unary hcounts]
      rcases hbase with rfl | ⟨rfl, _⟩
      · exact ih hchild hjoins hinput hfits hvalues.2 hrows
      · obtain ⟨rows, hrows, _⟩ := bind_eq_ok_iff.mp hrows
        have hbelow := ih hchild hjoins hinput hfits hvalues.2.2 hrows
        exact hbelow
    · have hcounts : op.needsOrder = false := by
        cases op <;> first | rfl | cases hop
      obtain ⟨given, hgiven⟩ := exists_run_of_finish hrun
      obtain ⟨rows, hrows, _⟩ := bind_eq_ok_iff.mp hgiven
      have hvalues := throughout_finish _ isNeeded hvalues
      rw [consumers_finish, consumers_unary hcounts, consumers_unary hcounts]
      exact ih hchild hjoins hinput hfits hvalues.2 hrows
  | binary op left right ihl ihr =>
    intro isNeeded demand a out h hjoins hp hfits hvalues hrun
    simp only [joinFree, Bool.and_eq_true, Bool.not_eq_true'] at hjoins
    obtain ⟨⟨hop, hjoinsl⟩, hjoinsr⟩ := hjoins
    rcases arrange_binary h with ⟨l, r, hjoin, _, _, rfl⟩ | ⟨l, r, _, hl, hr, rfl⟩
    · rw [hop] at hjoin
      cases hjoin
    · obtain ⟨rows, hrows, hout⟩ := bind_eq_ok_iff.mp hrun
      obtain ⟨rrows, hrrows, _⟩ := Binary.mem_or_mem_of_run hop hout
      -- Both inputs run with the bindings of the plan.
      have hb : b ∈ op.rightBindings b (l.plan.run store b) := by
        cases op <;> first | rfl | cases hop
      refine List.rel_append (ihl hl hjoinsl ?_ hfits.1 hvalues.2.1 hrows)
        (ihr hr hjoinsr ?_ hfits.2.1 (hvalues.2.2 b hb) hrrows)
      · exact hp.mono fun q hq => by simp [subplans, hq]
      · exact hp.mono fun q hq => by simp [subplans, hq]

/-- **A corrected plan gives rows in the order of the header of the plan**, and the operators in it
that count rows are those of the plan and read rows in the order of the headers of their inputs. -/
theorem isSorted_run_correctOrder {p q : Plan} (hS : TransitiveOn S) (hjoins : p.joinFree)
    (hp : p.OrdersTruly store S) (hfits : p.Fits store) (hq : p.correctOrder .standard = .ok q)
    (hvalues : q.Throughout store (GivesIn store S) b) (hrun : q.run store b = .ok rows) :
    p.header.order.isSorted rows ∧ List.Forall₂ (ReadsSorted store b) p.consumers q.consumers := by
  obtain ⟨a, ha, hq⟩ := bind_eq_ok_iff.mp hq
  obtain rfl := Except.ok.inj hq
  rw [← order_of_arrange ha hjoins]
  split at hvalues
  · -- The sort that is due is put on top.
    rename_i hdue
    rw [if_pos hdue] at hrun ⊢
    obtain ⟨given, hgiven, hout⟩ := bind_eq_ok_iff.mp hrun
    have hupholds := (upholds_of_arrange hS ha hjoins hp hfits hvalues.2).settle hS
    have hconsumers := consumers_of_arrange hS ha hjoins hp hfits hvalues.2 hgiven
    exact ⟨SortOrder.isSorted_of_sort_eq hS (hupholds.keys rows hrun)
      (hupholds.sorted rfl rows hrun), hconsumers⟩
  · rename_i hdue
    rw [if_neg hdue] at hrun ⊢
    have hupholds := upholds_of_arrange hS ha hjoins hp hfits hvalues
    have hsort := hupholds.sort_run (Bool.eq_false_iff.mpr hdue) hrun
    exact ⟨SortOrder.isSorted_of_sort_eq hS (hupholds.keys rows hrun) hsort,
      consumers_of_arrange hS ha hjoins hp hfits hvalues hrun⟩

end Plan

namespace Sample

/-- The greatest orders of the first two customers, each listed twice, by customer. -/
def topOrders : Plan := .unary (.sort [.asc 0]) (.unary (.take 4)
  (.unary (.filter (.compare .le (.column 0) (.literal (.int32 2))))
    (.unary (.sort [.desc 1]) (.binary .concat orders orders))))

/-- The same with the inner sort right below the operator that counts rows. -/
def topOrdersCorrected : Plan := .unary (.sort [.asc 0]) (.unary (.take 4)
  (.unary (.sort [.desc 1]) (.unary (.filter (.compare .le (.column 0) (.literal (.int32 2))))
    (.binary .concat orders orders))))

/-- The rows of the greatest orders, as they were taken. -/
def topRows : List Row := [[.int32 1, .int32 30], [.int32 1, .int32 30], [.int32 1, .int32 20],
  [.int32 2, .int32 20]]

theorem run_greatOrders : (Plan.unary (.sort [.desc 1])
    (.unary (.filter (.compare .le (.column 0) (.literal (.int32 2))))
      (.binary .concat orders orders))).run .empty .empty =
    .ok (topRows ++ [[.int32 1, .int32 20], [.int32 2, .int32 20]]) :=
  Plan.run_sort rfl (SortOrder.sort_eq_of_ties (by decide))

theorem run_fourGreatest : (Plan.unary (.take 4) (.unary (.sort [.desc 1])
    (.unary (.filter (.compare .le (.column 0) (.literal (.int32 2))))
      (.binary .concat orders orders)))).run .empty .empty = .ok topRows := by
  rw [Plan.run, run_greatOrders]
  rfl

theorem run_topOrdersCorrected : topOrdersCorrected.run .empty .empty = .ok topRows :=
  Plan.run_sort run_fourGreatest (SortOrder.sort_eq_of_ties (by decide))

theorem ordersTruly_topOrders : topOrders.OrdersTruly .empty {v | v ∈ orderValues} := by
  constructor
  · intro order input hmem
    simp only [topOrders, orders, Plan.subplans, List.mem_cons, List.mem_append, Plan.unary.injEq,
      Unary.sort.injEq, reduceCtorEq, false_and, or_false, false_or, List.not_mem_nil] at hmem
    rcases hmem with ⟨rfl, rfl⟩ | ⟨rfl, rfl⟩ <;> decide
  · intro leaf hmem
    simp only [topOrders, orders, Plan.subplans, List.mem_cons, List.mem_append, Plan.source.injEq,
      reduceCtorEq, or_false, false_or, List.not_mem_nil, or_self] at hmem
    subst hmem
    decide
  · intro header rows hmem
    simp only [topOrders, orders, Plan.subplans, List.mem_cons, List.mem_append, Plan.source.injEq,
      Source.rows.injEq, reduceCtorEq, or_false, false_or, List.not_mem_nil, or_self] at hmem
    obtain ⟨rfl, rfl⟩ := hmem
    rfl
  · intro leaf i rows _ _ htable
    cases htable

theorem fits_topOrders : topOrders.Fits .empty := by
  have horders : orders.Fits .empty := by
    refine ⟨?_, fun i rows hi => by cases hi⟩
    rintro header rows ⟨⟩
    decide
  exact ⟨horders, horders, fun _ => rfl⟩

theorem givesIn_topOrdersCorrected :
    topOrdersCorrected.Throughout .empty (Plan.GivesIn .empty {v | v ∈ orderValues}) .empty := by
  refine ⟨.of_run run_topOrdersCorrected (by decide), .of_run run_fourGreatest (by decide),
    .of_run run_greatOrders (by decide), .of_run rfl (by decide), .of_run rfl (by decide),
    .of_run rfl (by decide), fun b' hb' => ?_⟩
  obtain rfl := hb'
  exact .of_run rfl (by decide)

/-- The inner sort is moved above the filter, so that the four greatest orders are taken. -/
theorem isSorted_run_correctOrder_topOrders :
    topOrders.correctOrder .standard = .ok topOrdersCorrected ∧
      topOrdersCorrected.run .empty .empty = .ok topRows ∧
      topOrders.header.order.isSorted topRows ∧
      List.Forall₂ (Plan.ReadsSorted .empty .empty) topOrders.consumers
        topOrdersCorrected.consumers := by
  have htrans : TransitiveOn {v | v ∈ orderValues} :=
    Value.transitiveOn_of_ne_float fun v hv x hx => by simp [hx, orderValues] at hv
  exact ⟨rfl, run_topOrdersCorrected,
    Plan.isSorted_run_correctOrder htrans rfl ordersTruly_topOrders fits_topOrders rfl
      givesIn_topOrdersCorrected run_topOrdersCorrected⟩

/-- Given rows come in their order, and what a corrected operator makes of them does not come in the
order of the header. -/
def LosesOrder (op : Unary) (header : Header) (given : List Row) : Prop :=
  let p : Plan := .unary op (.source (.rows header given))
  header.order.isSorted given ∧ ∃ q rows, p.correctOrder .standard = .ok q ∧
    q.run .empty .empty = .ok rows ∧ p.header.order.isSorted rows = false

/-- Without a consistent comparison neighbours that come in order say nothing about rows further
apart: numbers that are compared exactly or as floating point numbers, rows without the column of
the order, and an order by a column that appears only later. -/
theorem correction_loses_order :
    LosesOrder (.filter (.compare .eq (.column 1) (.literal (.bool true))))
      ⟨[⟨"n", .float64, false⟩, ⟨"keep", .bool, false⟩], [.asc 0]⟩
      [[.int64 9007199254740993, .bool true], [.float ⟨0x4340000000000000⟩, .bool false],
        [.int64 9007199254740992, .bool true]] ∧
    LosesOrder (.filter (.compare .eq (.column 0) (.literal (.int32 1))))
      ⟨[⟨"a", .int32, false⟩, ⟨"b", .int32, false⟩], [.asc 1]⟩
      [[.int32 1, .int32 5], [.int32 2], [.int32 1, .int32 3]] ∧
    LosesOrder (.number "n") ⟨[⟨"a", .int32, false⟩], [.desc 1]⟩ [[.int32 1], [.int32 2]] := by
  refine ⟨⟨?_, _, _, rfl, rfl, ?_⟩, ⟨?_, _, _, rfl, rfl, ?_⟩, ⟨?_, _, _, rfl, rfl, ?_⟩⟩
  all_goals decide

end Sample

end QueryPlanner
