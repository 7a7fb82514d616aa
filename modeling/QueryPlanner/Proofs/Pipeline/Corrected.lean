import QueryPlanner.Proofs.Ordering.Delivery
import QueryPlanner.Proofs.Pipeline.Steady

/-!
# Correcting the order of steady plans

Sorts may stand below sorts in a steady plan, and correcting drops the inner ones.  The rows then
reach the outer sort in another order, but without ties it gives the same rows.  So a corrected part
gives the rows of the part in some order, and once they are sorted by the order that is due it gives
the very same rows, unless nobody sees their order.  A sort that is put back has rows without ties
to sort, like the sort whose order was due, so that the corrected plan is steady again.

## Main definitions

* `Arranged.Accords` — a corrected plan is steady and gives rows up to what is due.

## Main results

* `Plan.accords_of_arrange` — corrected parts of a steady plan accord with the rows of the parts.
* `Plan.Steady.correctOrder` — correcting a steady plan keeps its rows and leaves it steady.
-/

namespace QueryPlanner

open Value (TransitiveOn)

variable {store : Store} {S : Set Value} {b : Bindings} {leaf : Source} {demand : Demand}
  {rows out : List Row} {op : Unary}

/-- An operator other than a sort asks for the columns of its input only. -/
theorem Unary.SteadyOver.of_columns {input child : Plan} (h : op.SteadyOver store S b input)
    (hop : ∀ order, op ≠ .sort order) (hcolumns : child.header.columns = input.header.columns) :
    op.SteadyOver store S b child := by
  cases op with
  | filter predicate =>
    have hready : predicate.Ready b S input.header.width := h
    rw [Header.width, ← hcolumns] at hready
    exact hready
  | sort order => exact absurd rfl (hop order)
  | _ => exact h

/-- A corrected plan is steady and gives rows in some order.  They come in its order if that is
settled, and sorted by it they are the rows, unless their order is ignored.  A sort that is due has
no ties. -/
structure Arranged.Accords (store : Store) (S : Set Value) (b : Bindings) (leaf : Source)
    (demand : Demand) (a : Arranged) (rows : List Row) : Prop where
  steady : a.plan.Steady store S b leaf
  keys : ∀ row ∈ rows, a.order.HasKeys S row
  runs : ∃ given, a.plan.run store b = .ok given ∧ given.Perm rows ∧
    (a.isSettled → a.order.sort given = given) ∧ (demand ≠ .ignored → a.order.sort given = rows)
  due : demand ≠ .ignored → a.isDue → a.plan.countsNothing ∧ a.order.Tieless rows

namespace Arranged.Accords

variable {a : Arranged}

/-- Where the order is not ignored and nothing is due, a corrected plan gives the very rows. -/
theorem run_eq (h : a.Accords store S b leaf demand rows) (hdemand : demand ≠ .ignored)
    (hdue : a.isDue = false) : a.plan.run store b = .ok rows ∧ a.order.sort rows = rows := by
  obtain ⟨given, hrun, _, hsettled, hsort⟩ := h.runs
  have hgiven : a.order.sort given = given := by
    by_cases hs : a.isSettled
    · exact hsettled hs
    · have horder : a.order = [] := by simpa [isDue, hs] using hdue
      rw [horder, SortOrder.sort_nil]
  obtain rfl : given = rows := hgiven.symm.trans (hsort hdemand)
  exact ⟨hrun, hgiven⟩

/-- Putting back a sort that is due. -/
theorem settle (hS : TransitiveOn S) (h : a.Accords store S b leaf demand rows)
    (hdemand : demand ≠ .ignored) (hdue : a.isDue) :
    a.settle.Accords store S b leaf demand rows ∧ a.settle.plan.run store b = .ok rows := by
  obtain ⟨given, hrun, hperm, _, hsort⟩ := h.runs
  obtain ⟨hcounts, htieless⟩ := h.due hdemand hdue
  have hsettled : a.settle.plan.run store b = .ok rows := by
    rw [Arranged.settle, Plan.run, hrun, ok_bind, Unary.run, hsort hdemand]
  have hsorted : a.order.sort rows = rows := by
    rw [← hsort hdemand]
    exact SortOrder.sort_sort hS fun row hrow => h.keys row (hperm.mem_iff.mp hrow)
  refine ⟨⟨⟨h.steady, hcounts, fun given' hrun' => ?_⟩, h.keys,
    ⟨rows, hsettled, List.Perm.refl _, fun _ => hsorted, fun _ => hsorted⟩, fun _ hdue => ?_⟩,
    hsettled⟩
  · obtain rfl := Except.ok.inj (hrun.symm.trans hrun')
    exact ⟨fun row hrow => h.keys row (hperm.mem_iff.mp hrow), htieless.of_perm hperm⟩
  · simp [isDue, Arranged.settle] at hdue

theorem finish (hS : TransitiveOn S) (h : a.Accords store S b leaf demand rows) {isNeeded : Bool}
    (hneeded : isNeeded = true → demand ≠ .ignored) :
    (a.finish .keeps isNeeded).Accords store S b leaf demand rows := by
  rw [finish_keeps]
  split
  · rename_i hdue
    obtain ⟨hneeds, hdue⟩ := Bool.and_eq_true_iff.mp hdue
    exact (h.settle hS (hneeded hneeds) hdue).1
  · exact h

/-- A sort whose rows have no ties, over an input that gives them in some order. -/
theorem sort (hS : TransitiveOn S) {order : SortOrder} (h : a.Accords store S b leaf .ignored rows)
    (hcounts : a.plan.countsNothing) (hkeys : ∀ row ∈ rows, order.HasKeys S row)
    (htieless : order.Tieless rows) (demand : Demand) :
    (Arranged.mk a.plan order (a.isSettled && a.order.startsWith order)).Accords store S b leaf
      demand (order.sort rows) := by
  obtain ⟨given, hrun, hperm, hsettled, _⟩ := h.runs
  refine ⟨h.steady, fun row hrow => hkeys row (SortOrder.mem_sort.mp hrow),
    ⟨given, hrun, hperm.trans (order.sort_perm rows).symm, fun hstarts => ?_, fun _ => ?_⟩,
    fun _ _ => ?_⟩
  · -- The rows come in an order that begins with that of the sort.
    obtain ⟨hs, hstarts⟩ := Bool.and_eq_true_iff.mp hstarts
    obtain ⟨rest, horder⟩ := List.isPrefixOf_iff_prefix.mp hstarts
    have hall : ∀ row ∈ given, a.order.HasKeys S row :=
      fun row hrow => h.keys row (hperm.mem_iff.mp hrow)
    have hsorted := hsettled hs
    rw [← horder] at hall hsorted
    exact SortOrder.sort_eq_self_of_append hS hall hsorted
  · exact htieless.sort_eq hS hkeys hperm
  · exact ⟨hcounts, htieless.of_perm (order.sort_perm rows)⟩

/-- Rows that come in an order come in every order that begins it. -/
theorem of_append (hS : TransitiveOn S) {start rest : SortOrder}
    (h : a.Accords store S b leaf demand rows) (hsettled : a.isSettled)
    (horder : a.order = start ++ rest) :
    (Arranged.mk a.plan start true).Accords store S b leaf demand rows := by
  obtain ⟨given, hrun, hperm, hsorted, hsort⟩ := h.runs
  have hkeys := h.keys
  have hgiven := hsorted hsettled
  rw [horder] at hkeys hgiven
  have hstart : start.sort given = given :=
    SortOrder.sort_eq_self_of_append hS (fun row hrow => hkeys row (hperm.mem_iff.mp hrow)) hgiven
  refine ⟨h.steady, fun row hrow k hk => hkeys row hrow k (List.mem_append_left _ hk),
    ⟨given, hrun, hperm, fun _ => hstart, fun hdemand => ?_⟩, fun _ hdue => ?_⟩
  · rw [hstart, ← hsorted hsettled]
    exact hsort hdemand
  · simp [isDue] at hdue

/-- An operator that takes sorted rows to sorted rows and makes no ties. -/
theorem carry {order : SortOrder} (h : a.Accords store S b leaf demand rows)
    (hover : op.SteadyOver store S b a.plan) (hcounts : op.needsOrder = false)
    (hcarries : Carries S a.order order fun rows => op.run b rows)
    (hkeys : ∀ row ∈ out, order.HasKeys S row) (hnil : a.order = [] → order = [])
    (htieless : a.order.Tieless rows → order.Tieless out)
    (hvalues : ∀ row ∈ rows, ∀ v ∈ row, v ∈ S) (hout : op.run b rows = .ok out) :
    (Arranged.mk (.unary op a.plan) order a.isSettled).Accords store S b leaf demand out := by
  obtain ⟨given, hrun, hperm, hsettled, hsort⟩ := h.runs
  have hgivenValues : ∀ row ∈ given, ∀ v ∈ row, v ∈ S :=
    fun row hrow => hvalues row (hperm.mem_iff.mp hrow)
  have hgivenKeys : ∀ row ∈ given, a.order.HasKeys S row :=
    fun row hrow => h.keys row (hperm.mem_iff.mp hrow)
  -- The operator gives the same rows on another arrangement of its input, in some order.
  obtain ⟨out', hout', hperm'⟩ := Unary.exists_run_of_perm hover.isLinear hcounts hperm hout
  refine ⟨⟨h.steady, hover⟩, hkeys,
    ⟨out', by rw [Plan.run, hrun, ok_bind, hout'], hperm', fun hs => ?_, fun hdemand => ?_⟩,
    fun hdemand hdue => ?_⟩
  · -- A settled input is sorted, and the operator carries the order over.
    exact hcarries.sort_eq hgivenValues hgivenKeys (hsettled hs) hout'
  · -- Otherwise sorting after the operator gives what sorting before it would have.
    have hsorted : op.run b (a.order.sort given) = .ok out := by rw [hsort hdemand, hout]
    obtain ⟨out'', hout'', hsame, _⟩ := hcarries given out hgivenValues hgivenKeys hsorted
    obtain rfl := Except.ok.inj (hout'.symm.trans hout'')
    exact hsame
  · -- A sort is still due above the operator only if it was below.
    have hdue' : a.isDue := by
      simp only [isDue, Bool.and_eq_true, Bool.not_eq_true', List.isEmpty_eq_false_iff] at hdue ⊢
      exact ⟨fun horder => hdue.1 (hnil horder), hdue.2⟩
    obtain ⟨hplanCounts, hties⟩ := h.due hdemand hdue'
    exact ⟨by simp [Plan.countsNothing, hcounts, hplanCounts], htieless hties⟩

/-- A filter, a calculation or a new name. -/
theorem keep (hS : TransitiveOn S) (h : a.Accords store S b leaf demand rows) (hop : op.keepsPlaces)
    (hover : op.SteadyOver store S b a.plan) (hvalues : ∀ row ∈ rows, ∀ v ∈ row, v ∈ S)
    (hout : op.run b rows = .ok out) :
    (Arranged.mk (.unary op a.plan) a.order a.isSettled).Accords store S b leaf demand out := by
  have hcounts : op.needsOrder = false := by
    cases op <;> first | rfl | cases hop
  exact h.carry hover hcounts (Unary.carries_of_keepsPlaces hS hop)
    (Unary.hasKeys_of_keepsPlaces hop h.keys hout) id
    (fun hties => Unary.tieless_of_keepsPlaces hover.isLinear hop h.keys hties hout) hvalues hout

/-- A selection. -/
theorem project (hS : TransitiveOn S) {mapping : List Nat}
    (h : a.Accords store S b leaf demand rows) (hop : op.mapping? = some mapping)
    (hover : op.SteadyOver store S b a.plan)
    (hkept : (a.order.remap mapping).2 = none ∨ a.isSettled ∨ demand = .ignored)
    (hvalues : ∀ row ∈ rows, ∀ v ∈ row, v ∈ S) (hout : op.run b rows = .ok out) :
    (Arranged.mk (.unary op a.plan) (a.order.remap mapping).1 a.isSettled).Accords store S b leaf
      demand out := by
  have hcounts : op.needsOrder = false := by
    cases op <;> first | rfl | cases hop
  have hkeys := Unary.hasKeys_of_mapping hop h.keys hout
  -- If all columns of an order are selected, the order stays as it is but for the numbers of
  -- columns.
  have hall : ∀ {a : Arranged}, a.Accords store S b leaf demand rows →
      op.SteadyOver store S b a.plan → (a.order.remap mapping).2 = none →
      (Arranged.mk (.unary op a.plan) (a.order.remap mapping).1 a.isSettled).Accords store S b leaf
        demand out := by
    intro a h hover hnone
    refine h.carry hover hcounts (Unary.carries_of_mapping hS hop hnone)
      (Unary.hasKeys_of_mapping hop h.keys hout) (fun hnil => by rw [hnil]; rfl)
      (fun hties => Unary.tieless_of_mapping hover.isLinear hop hnone hties hout) hvalues hout
  by_cases hsettled : a.isSettled
  · obtain ⟨start, rest, horder, hstart⟩ := SortOrder.exists_remap_append mapping a.order
    have hselected := hall (h.of_append hS hsettled horder) hover (by rw [hstart])
    rw [hstart] at hselected
    rw [hsettled]
    exact hselected
  · rcases hkept with hnone | hs | hignored
    · exact hall h hover hnone
    · exact absurd hs hsettled
    · -- What is left of the order is due, but nobody will ask for it.
      obtain ⟨given, hrun, hperm, _, _⟩ := h.runs
      obtain ⟨out', hout', hperm'⟩ := Unary.exists_run_of_perm hover.isLinear hcounts hperm hout
      exact ⟨⟨h.steady, hover⟩, hkeys, ⟨out', by rw [Plan.run, hrun, ok_bind, hout'], hperm',
        fun hs => absurd hs hsettled, fun hdemand => absurd hignored hdemand⟩,
        fun hdemand => absurd hignored hdemand⟩

/-- An operator that counts rows, over an input above which nothing is due. -/
theorem count (hS : TransitiveOn S) (h : a.Accords store S b leaf .required rows)
    (hop : op.needsOrder) (hover : op.SteadyOver store S b a.plan) (hdue : a.isDue = false)
    (hout : op.run b rows = .ok out) (demand : Demand) :
    (Arranged.mk (.unary op a.plan) a.order a.isSettled).Accords store S b leaf demand out := by
  obtain ⟨hrun, hsorted⟩ := h.run_eq (fun h => by cases h) hdue
  obtain ⟨hsorted', hkeys⟩ := op.sort_run_of_needsOrder hop hS h.keys hsorted hout
  refine ⟨⟨h.steady, hover⟩, hkeys, ⟨out, by rw [Plan.run, hrun, ok_bind, hout], List.Perm.refl _,
    fun _ => hsorted', fun _ => hsorted'⟩, fun _ hdue' => ?_⟩
  have hdue' : a.isDue := hdue'
  rw [hdue] at hdue'
  cases hdue'

end Arranged.Accords

namespace Plan

/-- **Corrected parts of a steady plan accord with the rows of the parts.** -/
theorem accords_of_arrange (hS : TransitiveOn S)
    (hleaf : ∀ rows, leaf.run store b = .ok rows →
      leaf.header.order.sort rows = rows ∧ ∀ row ∈ rows, leaf.header.order.HasKeys S row) :
    ∀ {p : Plan} {isNeeded : Bool} {demand : Demand} {a : Arranged} {out : List Row},
    p.arrange .standard isNeeded demand = .ok a → p.Steady store S b leaf →
    p.Throughout store (GivesIn store S) b → (isNeeded = true → demand ≠ .ignored) →
    p.run store b = .ok out → a.Accords store S b leaf demand out := by
  intro p
  induction p with
  | source l =>
    intro isNeeded demand a out h hsteady _ _ hrun
    obtain rfl := hsteady
    obtain rfl := arrange_source h
    obtain ⟨hsorted, hkeys⟩ := hleaf out hrun
    refine ⟨rfl, hkeys, ⟨out, hrun, List.Perm.refl _, fun _ => hsorted, fun _ => hsorted⟩, ?_⟩
    intro _ hdue
    simp [Arranged.isDue] at hdue
  | unary op input ih =>
    intro isNeeded demand a out h hsteady hvalues hneeded hrun
    obtain ⟨rows, hrows, hout⟩ := bind_eq_ok_iff.mp hrun
    obtain ⟨hinput, hover⟩ := hsteady
    have hinputValues := hvalues.2.self rows hrows
    rcases arrange_unary h with ⟨order, child, rfl, hchild, rfl⟩ | ⟨child, hop, hchild, rfl⟩ |
      ⟨mapping, child, step, hop, hchild, hstep, rfl⟩ | ⟨child, hop, hchild, rfl⟩
    · -- A sort is taken out, and is due from now on unless the rows come sorted.
      obtain ⟨hcounts, hties⟩ := hover
      obtain ⟨hkeys, htieless⟩ := hties rows hrows
      have haccords := ih hchild hinput hvalues.2 (fun h => by cases h) hrows
      obtain rfl := Except.ok.inj hout
      have hstep := haccords.sort hS (countsNothing_of_arrange hchild hcounts) hkeys htieless demand
      exact hstep.finish hS hneeded
    · -- An operator that counts rows, over an input whose order was settled for it.
      have haccords := ih hchild hinput hvalues.2 (fun _ h => by cases h) hrows
      have hover' := hover.of_columns (fun order h => by rw [h] at hop; cases hop)
        (columns_of_arrange hchild)
      exact haccords.count hS hop hover' (not_isDue_of_arrange hchild) hout demand
    · have haccords := ih hchild hinput hvalues.2 (fun h => by cases h) hrows
      have hover' := hover.of_columns (fun order h => by rw [h] at hop; cases hop)
        (columns_of_arrange hchild)
      obtain ⟨base, hbase, hkept, rfl⟩ := Arranged.project_cases hstep
      rcases hbase with rfl | ⟨rfl, rfl, hdue⟩
      · exact (haccords.project hS hop hover' hkept hinputValues hout).finish hS hneeded
      · -- A column of the due sort is dropped, so the sort is put back below.
        have hsettled := (haccords.settle hS (fun h => by cases h) hdue).1
        have hover : op.SteadyOver store S b child.settle.plan :=
          hover'.of_columns (fun order h => by rw [h] at hop; cases hop) rfl
        exact (hsettled.project hS hop hover hkept hinputValues hout).finish hS hneeded
    · have haccords := ih hchild hinput hvalues.2 (fun h => by cases h) hrows
      have hover' := hover.of_columns (fun order h => by rw [h] at hop; cases hop)
        (columns_of_arrange hchild)
      exact (haccords.keep hS hop hover' hinputValues hout).finish hS hneeded
  | binary op left right _ _ => intro isNeeded demand a out _ hsteady; exact hsteady.elim

/-- **Correcting a steady plan keeps its rows and leaves it steady.** -/
theorem Steady.correctOrder {p q : Plan} (hS : TransitiveOn S)
    (hleaf : ∀ rows, leaf.run store b = .ok rows →
      leaf.header.order.sort rows = rows ∧ ∀ row ∈ rows, leaf.header.order.HasKeys S row)
    (h : p.Steady store S b leaf) (hvalues : p.Throughout store (GivesIn store S) b)
    (hq : p.correctOrder .standard = .ok q) (hrun : p.run store b = .ok rows) :
    q.Steady store S b leaf ∧ q.run store b = .ok rows := by
  obtain ⟨a, ha, hq⟩ := bind_eq_ok_iff.mp hq
  obtain rfl := Except.ok.inj hq
  have hobserved : Demand.observed ≠ .ignored := fun h => by cases h
  have haccords := accords_of_arrange hS hleaf ha h hvalues (fun _ => hobserved) hrun
  split
  · rename_i hdue
    obtain ⟨hsettled, hrun'⟩ := haccords.settle hS hobserved hdue
    exact ⟨hsettled.steady, hrun'⟩
  · rename_i hdue
    exact ⟨haccords.steady, (haccords.run_eq hobserved (Bool.eq_false_iff.mpr hdue)).1⟩

end Plan

end QueryPlanner
