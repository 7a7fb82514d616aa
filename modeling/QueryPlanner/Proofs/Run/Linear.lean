import QueryPlanner.Proofs.Ordering.Arrangement
import QueryPlanner.Proofs.Run.Widths

/-!
# Operators that work on the rows of one table

Filters, selections, calculations and new names take rows one by one, so over the same rows in
another order they give the same rows in another order.  Sorting gives the very same rows if no two
of them tie.  Skipping, taking, paging and numbering depend on the order.  None of them gives more
rows than it gets.

## Main definitions

* `Unary.isLinear` — all operators with one input that neither drop duplicates nor aggregate.
* `Plan.countsNothing` — no operator of a plan depends on the order of its input.

## Main results

* `Unary.exists_run_of_perm` — over reordered rows, a linear operator that counts nothing gives
  reordered rows.
* `Unary.tieless_of_keepsPlaces`, `Unary.tieless_of_mapping` — operators that take rows one by one
  make no ties.
* `Unary.length_run_le` — linear operators give no more rows than they get.
-/

namespace QueryPlanner

variable {S : Set Value} {order order' : SortOrder} {b : Bindings} {rows given out : List Row}

/-! ### Rows one by one -/

theorem exists_spreadRows_of_perm {f : Row → Except Fault (List Row)} (hperm : given.Perm rows)
    (hout : spreadRows f rows = .ok out) :
    ∃ out', spreadRows f given = .ok out' ∧ out'.Perm out := by
  obtain ⟨g, hg, rfl⟩ := spreadRows_eq_ok_iff.mp hout
  have hg' : ∀ row ∈ given, f row = .ok (g row) := fun row hrow => hg row (hperm.mem_iff.mp hrow)
  exact ⟨given.flatMap g, spreadRows_eq_ok_iff.mpr ⟨g, hg', rfl⟩, hperm.flatMap_right g⟩

/-- Rows that are replaced by rows of which an order sees the same have no ties if they had none. -/
theorem SortOrder.Tieless.map {g : Row → Row} (h : order.Tieless rows)
    (hsees : ∀ row ∈ rows, order'.keysOf (g row) = order.keysOf row) :
    order'.Tieless (rows.map g) := by
  refine List.pairwise_map.mpr (List.Pairwise.imp_of_mem (fun {a c} ha hc hne => ?_) h)
  rwa [SortOrder.compareRows_of_keysOf_eq (hsees a ha) (hsees c hc)]

/-! ### Linear operators -/

namespace Unary

/-- The operators with one input that neither drop duplicates nor aggregate. -/
def isLinear : Unary → Bool
  | .distinct => false
  | .aggregate _ _ => false
  | _ => true

variable {op : Unary}

/-- **Over reordered rows, a linear operator that counts nothing gives reordered rows.** -/
theorem exists_run_of_perm (hlinear : op.isLinear) (hcounts : op.needsOrder = false)
    (hperm : given.Perm rows) (hout : op.run b rows = .ok out) :
    ∃ out', op.run b given = .ok out' ∧ out'.Perm out := by
  -- An operator that treats rows one by one gives the same rows in another order.
  cases op with
  | filter predicate =>
    rw [Unary.run, keepRows_eq_spreadRows] at hout
    rw [Unary.run, keepRows_eq_spreadRows]
    exact exists_spreadRows_of_perm hperm hout
  | select columns | calculate columns =>
    rw [Unary.run, mapRows_eq_spreadRows] at hout
    rw [Unary.run, mapRows_eq_spreadRows]
    exact exists_spreadRows_of_perm hperm hout
  | rename name =>
    obtain rfl := Except.ok.inj hout
    exact ⟨given, rfl, hperm⟩
  | sort order =>
    obtain rfl := Except.ok.inj hout
    exact ⟨order.sort given, rfl,
      (order.sort_perm given).trans (hperm.trans (order.sort_perm rows).symm)⟩
  | skip _ | take _ | page _ _ | number _ => cases hcounts
  | distinct | aggregate _ _ => cases hlinear

/-- Linear operators that keep places make no ties. -/
theorem tieless_of_keepsPlaces (hlinear : op.isLinear) (hop : op.keepsPlaces)
    (hkeys : ∀ row ∈ rows, order.HasKeys S row) (h : order.Tieless rows)
    (hout : op.run b rows = .ok out) : order.Tieless out := by
  cases op with
  | filter predicate =>
    obtain ⟨f, _, rfl⟩ := keepRows_eq_ok_iff.mp hout
    exact List.Pairwise.filter f h
  | calculate columns =>
    obtain ⟨g, hg, rfl⟩ := mapRows_eq_ok_iff.mp hout
    refine h.map fun row hrow => ?_
    obtain ⟨values, _, hmade⟩ := bind_eq_ok_iff.mp (hg row hrow)
    rw [← Except.ok.inj hmade]
    exact (hkeys row hrow).keysOf_append values
  | rename name =>
    obtain rfl := Except.ok.inj hout
    exact h
  | distinct => cases hlinear
  | _ => cases hop

/-- A selection of all columns of an order makes no ties. -/
theorem tieless_of_mapping {mapping : List Nat} (hlinear : op.isLinear)
    (hop : op.mapping? = some mapping) (hnone : (order.remap mapping).2 = none)
    (h : order.Tieless rows) (hout : op.run b rows = .ok out) :
    (order.remap mapping).1.Tieless out := by
  cases op with
  | select columns =>
    obtain rfl := Option.some.inj hop
    obtain ⟨g, hg, rfl⟩ := mapRows_eq_ok_iff.mp hout
    exact h.map fun row hrow => SortOrder.keysOf_remap (Row.getElem?_project (hg row hrow)) hnone
  | aggregate _ _ => cases hlinear
  | _ => cases hop

/-- **Linear operators give no more rows than they get.** -/
theorem length_run_le (hlinear : op.isLinear) (hout : op.run b rows = .ok out) :
    out.length ≤ rows.length := by
  cases op with
  | filter predicate =>
    obtain ⟨f, _, rfl⟩ := keepRows_eq_ok_iff.mp hout
    exact List.length_filter_le f rows
  | select columns | calculate columns =>
    obtain ⟨g, _, rfl⟩ := mapRows_eq_ok_iff.mp hout
    rw [List.length_map]
  | rename name =>
    obtain rfl := Except.ok.inj hout
    exact le_rfl
  | sort order =>
    obtain rfl := Except.ok.inj hout
    exact (order.sort_perm rows).length_eq.le
  | skip count =>
    obtain rfl := Except.ok.inj hout
    rw [List.length_drop]
    omega
  | take count =>
    obtain rfl := Except.ok.inj hout
    rw [List.length_take]
    omega
  | page before count =>
    obtain rfl := Except.ok.inj hout
    rw [List.length_take, List.length_drop]
    omega
  | number column =>
    obtain rfl := Except.ok.inj hout
    rw [numbered, List.length_map, List.length_zipIdx]
  | distinct | aggregate _ _ => cases hlinear

end Unary

/-! ### Plans that count nothing -/

namespace Plan

/-- Whether no operator of a plan depends on the order of its input. -/
def countsNothing : Plan → Bool
  | .source _ => true
  | .unary op input => !op.needsOrder && input.countsNothing
  | .binary _ left right => left.countsNothing && right.countsNothing

/-- Correcting a plan that counts nothing gives one that counts nothing. -/
theorem countsNothing_of_arrange : ∀ {p : Plan} {isNeeded : Bool} {demand : Demand} {a : Arranged},
    p.arrange .standard isNeeded demand = .ok a → p.countsNothing → a.plan.countsNothing := by
  -- A sort that is put back counts nothing.
  have hfinish : ∀ (a : Arranged) (isNeeded : Bool), a.plan.countsNothing →
      (a.finish .keeps isNeeded).plan.countsNothing := by
    intro a isNeeded h
    rw [Arranged.finish_keeps]
    split <;> exact h
  intro p
  induction p with
  | source leaf =>
    intro isNeeded demand a h _
    obtain rfl := arrange_source h
    rfl
  | unary op input ih =>
    intro isNeeded demand a h hcounts
    simp only [countsNothing, Bool.and_eq_true, Bool.not_eq_true'] at hcounts
    have hover : ∀ {q : Plan}, q.countsNothing → (Plan.unary op q).countsNothing := by
      intro q hq
      rw [countsNothing, hcounts.1, hq]
      rfl
    rcases arrange_unary h with ⟨order, child, _, hchild, rfl⟩ | ⟨child, hop, _, rfl⟩ |
      ⟨mapping, child, step, _, hchild, hstep, rfl⟩ | ⟨child, _, hchild, rfl⟩
    · have hchildCounts := ih hchild hcounts.2
      exact hfinish _ isNeeded hchildCounts
    · -- No operator of the plan needs the order.
      rw [hcounts.1] at hop
      cases hop
    · have hchildCounts := ih hchild hcounts.2
      obtain ⟨base, hbase, _, rfl⟩ := Arranged.project_cases hstep
      refine hfinish _ isNeeded (hover ?_)
      rcases hbase with rfl | ⟨rfl, _⟩ <;> exact hchildCounts
    · exact hfinish _ isNeeded (hover (ih hchild hcounts.2))
  | binary op left right ihl ihr =>
    intro isNeeded demand a h hcounts
    simp only [countsNothing, Bool.and_eq_true] at hcounts
    have hboth : ∀ {demand : Demand} {l r : Arranged}, left.arrange .standard false demand = .ok l →
        right.arrange .standard false demand = .ok r →
        (Plan.binary op l.plan r.plan).countsNothing := by
      intro demand l r hl hr
      rw [countsNothing, ihl hl hcounts.1, ihr hr hcounts.2]
      rfl
    rcases arrange_binary h with ⟨l, r, _, hl, hr, rfl⟩ | ⟨l, r, _, hl, hr, rfl⟩
    · exact hfinish _ isNeeded (hboth hl hr)
    · exact hboth hl hr

end Plan

end QueryPlanner
