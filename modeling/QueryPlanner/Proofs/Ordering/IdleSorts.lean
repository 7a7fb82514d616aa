import QueryPlanner.Proofs.Run.Headers

/-!
# Sorts that a corrected plan could do without

A sort is idle if the header of its input says that rows come in its order already.  Correcting a
plan takes off the sorts that are satisfied, and for this it asks whether nothing is due above the
corrected input and whether the order tracked for it begins with that of the sort.  Both questions
can miss an order that the rows do have: a sort that is due below another one is dropped later, and
then the rows come in the order they had before it; and a sort that is taken off because its input
comes in a longer order leaves only its own order tracked.  Apart from these two cases no idle sort
is left.

## Main definitions

* `Plan.HasIdleSort` — some sort of a plan is idle.
* `Plan.settles`, `Plan.physicalOrder` — whether nothing is due above a plan once it is corrected,
  and the order of its header then.
* `Plan.seenSorts` — the sorts of a plan whose order can be seen.
* `Plan.overlooks` — the input of a sort comes in its order once corrected, and the correction
  misses it.
* `Arranged.Idles` — a corrected plan has an idle sort, or will have one when a due sort is put
  back.

## Main results

* `Plan.shows_of_arrange` — what is due above a corrected plan, and the order of its header.
* `Plan.idles_of_arrange` — corrected parts of a plan have idle sorts where one that is seen is
  overlooked.
* `Plan.hasIdleSort_correctOrder_iff` — **a corrected plan has an idle sort exactly if one that is
  seen is overlooked**, which takes two sorts above one another.
-/

namespace QueryPlanner

/-- Of orders by selected columns, one begins the other if it did before the selection. -/
theorem SortOrder.remap_begins_iff {mapping : List Nat} : ∀ {start order : SortOrder},
    (start.remap mapping).2 = none →
    ((start.remap mapping).1 <+: (order.remap mapping).1 ↔ start <+: order) := by
  intro start order hnone
  refine ⟨fun h => ?_, remap_begins mapping⟩
  induction start generalizing order with
  | nil => exact List.nil_prefix
  | cons k ks ih =>
    rw [remap] at hnone h
    cases hk : mapping.idxOf? k.column with
    | none => simp [hk] at hnone
    | some position =>
      simp only [hk] at hnone h
      cases order with
      | nil => simp [remap] at h
      | cons k' ks' =>
        rw [remap] at h
        cases hk' : mapping.idxOf? k'.column with
        | none => simp [hk'] at h
        | some position' =>
          simp only [hk', List.cons_prefix_cons, SortKey.mk.injEq] at h
          obtain ⟨⟨rfl, hdirection⟩, hrest⟩ := h
          -- The column is found again at its position.
          obtain ⟨_, hcolumn, _⟩ := List.idxOf?_eq_some_iff.mp hk
          obtain ⟨_, hcolumn', _⟩ := List.idxOf?_eq_some_iff.mp hk'
          have hsame : k = k' := by
            cases k
            cases k'
            simp_all
          rw [hsame, List.cons_prefix_cons]
          exact ⟨rfl, ih hnone hrest⟩

theorem SortOrder.startsWith_iff {order start : SortOrder} :
    order.startsWith start ↔ start <+: order :=
  List.isPrefixOf_iff_prefix

/-- What an operator makes of the order of a header depends on nothing else in it. -/
theorem Unary.order_header_congr (op : Unary) {x y : Header} (h : x.order = y.order) :
    (op.header x).order = (op.header y).order := by
  cases op <;> simp [Unary.header, Header.select, Header.append, Header.withOrder, h]

namespace Plan

variable {op : Unary} {input : Plan}

/-! ### Idle sorts -/

/-- Some sort stands over an input of which the header says that rows come in its order. -/
def HasIdleSort (q : Plan) : Prop :=
  ∃ order input, .unary (.sort order) input ∈ q.subplans ∧ input.header.order.startsWith order

theorem not_hasIdleSort_source (leaf : Source) : ¬ (Plan.source leaf).HasIdleSort := by
  rintro ⟨order, input, hmem, _⟩
  simp [subplans] at hmem

theorem hasIdleSort_sort (order : SortOrder) (input : Plan) :
    (Plan.unary (.sort order) input).HasIdleSort ↔
      input.header.order.startsWith order ∨ input.HasIdleSort := by
  simp only [HasIdleSort, subplans, List.mem_cons, unary.injEq, Unary.sort.injEq,
    or_and_right, exists_or]
  refine or_congr_left ⟨?_, fun h => ⟨order, input, ⟨rfl, rfl⟩, h⟩⟩
  rintro ⟨_, _, ⟨rfl, rfl⟩, h⟩
  exact h

theorem hasIdleSort_unary (hop : ∀ order, op ≠ .sort order) :
    (Plan.unary op input).HasIdleSort ↔ input.HasIdleSort := by
  have hself : ∀ order x, Plan.unary (.sort order) x ≠ .unary op input := by
    intro order x h
    exact hop order (unary.inj h).1.symm
  simp [HasIdleSort, subplans, hself]

theorem hasIdleSort_binary (op : Binary) (left right : Plan) :
    (Plan.binary op left right).HasIdleSort ↔ left.HasIdleSort ∨ right.HasIdleSort := by
  simp only [HasIdleSort, subplans, List.mem_cons, reduceCtorEq, false_or, List.mem_append,
    or_and_right, exists_or]

/-! ### What correcting knows of an input, and what is there -/

/-- Whether nothing is due above a plan once it is corrected below a sort.  An operator that counts
rows has a due sort put back below it, unless that is by no column at all. -/
def settles : Plan → Bool
  | .source _ => true
  | .unary (.sort order) input => input.settles && input.header.order.startsWith order
  | .unary op input => input.settles || op.needsOrder && !input.header.order.isEmpty
  | .binary _ _ _ => true

/-- Whether a sort is due above a plan once it is corrected below a sort. -/
def owesSort (p : Plan) : Bool := !p.header.order.isEmpty && !p.settles

/-- The order of the header of a plan once it is corrected below a sort: sorts are gone, except
where one is put back below an operator that counts rows. -/
def physicalOrder : Plan → SortOrder
  | .source leaf => leaf.header.order
  | .unary (.sort _) input => input.physicalOrder
  | .unary op input =>
    let order := if op.needsOrder && input.owesSort then input.header.order else input.physicalOrder
    (op.header (input.header.withOrder order)).order
  | .binary _ _ _ => []

/-- Whether an input comes in the order of a sort once it is corrected, and the correction misses
it: a sort is due above the input, or its header does not say that much. -/
def overlooks (input : Plan) (order : SortOrder) : Bool :=
  !order.isEmpty && input.physicalOrder.startsWith order &&
    !(input.settles && input.header.order.startsWith order)

/-- The sorts of a plan whose order can be seen, with their inputs: the next operator above that
counts rows, sorts or breaks order is one that counts rows, or there is none and the order of the
plan is seen. -/
def seenSorts : Plan → Bool → List (SortOrder × Plan)
  | .source _, _ => []
  | .unary (.sort order) input, isSeen =>
    (if isSeen then [(order, input)] else []) ++ input.seenSorts false
  | .unary op input, isSeen => input.seenSorts (op.needsOrder || isSeen)
  | .binary op left right, isSeen =>
    left.seenSorts (op.isJoin && isSeen) ++ right.seenSorts (op.isJoin && isSeen)

theorem settles_unary (hop : ∀ order, op ≠ .sort order) (input : Plan) :
    (Plan.unary op input).settles =
      (input.settles || op.needsOrder && !input.header.order.isEmpty) := by
  cases op with
  | sort order => exact absurd rfl (hop order)
  | _ => rfl

theorem physicalOrder_unary (hop : ∀ order, op ≠ .sort order) (input : Plan) :
    (Plan.unary op input).physicalOrder = (op.header (input.header.withOrder
      (if op.needsOrder && input.owesSort then input.header.order
        else input.physicalOrder))).order := by
  cases op with
  | sort order => exact absurd rfl (hop order)
  | _ => rfl

theorem seenSorts_unary (hop : ∀ order, op ≠ .sort order) (input : Plan) (isSeen : Bool) :
    (Plan.unary op input).seenSorts isSeen = input.seenSorts (op.needsOrder || isSeen) := by
  cases op with
  | sort order => exact absurd rfl (hop order)
  | _ => rfl

theorem owesSort_of_needsOrder (hop : op.needsOrder) (input : Plan) :
    (Plan.unary op input).owesSort = false := by
  have horder : (Plan.unary op input).header.order = input.header.order := by
    cases op <;> first | rfl | cases hop
  rw [owesSort, horder, settles_unary (fun order h => by rw [h] at hop; cases hop), hop]
  cases input.header.order.isEmpty <;> simp

theorem mem_subplans_of_mem_seenSorts {s : SortOrder × Plan} : ∀ {p : Plan} {isSeen : Bool},
    s ∈ p.seenSorts isSeen → .unary (.sort s.1) s.2 ∈ p.subplans := by
  intro p
  induction p with
  | source leaf => intro isSeen h; cases h
  | unary op input ih =>
    intro isSeen h
    by_cases hop : ∃ order, op = .sort order
    · obtain ⟨order, rfl⟩ := hop
      rcases List.mem_append.mp h with h | h
      · -- The sort itself is listed if it is seen.
        split at h
        · obtain rfl := List.mem_singleton.mp h
          exact mem_subplans_self _
        · cases h
      · exact List.mem_cons_of_mem _ (ih h)
    · rw [seenSorts_unary (fun order hsort => hop ⟨order, hsort⟩)] at h
      exact List.mem_cons_of_mem _ (ih h)
  | binary op left right ihl ihr =>
    intro isSeen h
    refine List.mem_cons_of_mem _ (List.mem_append.mpr ?_)
    exact (List.mem_append.mp h).imp ihl ihr

end Plan

/-- The operators that count rows, renumber columns or keep order and places are no sorts. -/
theorem Unary.ne_sort {op : Unary} (hop : op.needsOrder ∨ op.mapping?.isSome ∨ op.keepsPlaces) :
    ∀ order, op ≠ .sort order := by
  rintro order rfl
  simp [needsOrder, mapping?, keepsPlaces] at hop

theorem Unary.needsOrder_eq_false {op : Unary} (hop : op.mapping?.isSome ∨ op.keepsPlaces) :
    op.needsOrder = false := by
  cases op <;> first | rfl | simp [mapping?, keepsPlaces] at hop

theorem Unary.order_header_of_mapping {op : Unary} {mapping : List Nat}
    (hop : op.mapping? = some mapping) (h : Header) :
    (op.header h).order = (h.order.remap mapping).1 := by
  cases op <;> first | (obtain rfl := Option.some.inj hop; rfl) | cases hop

theorem Unary.order_header_of_keepsPlaces {op : Unary} (hop : op.keepsPlaces) (h : Header) :
    (op.header h).order = h.order := by
  cases op <;> first | rfl | cases hop

/-! ### What is due, and the order of the header -/

namespace Arranged

/-- What is due above a corrected plan and the order of its header are those read off the plan, with
a due sort put back if an operator above needs it. -/
structure Shows (a : Arranged) (p : Plan) (isNeeded : Bool) : Prop where
  isSettled_eq : a.isSettled = (p.settles || isNeeded && !p.header.order.isEmpty)
  order_eq : a.plan.header.order =
    if isNeeded && p.owesSort then p.header.order else p.physicalOrder

variable {a : Arranged} {p : Plan}

theorem Shows.isDue_eq (h : a.Shows p false) (horder : a.order = p.header.order) :
    a.isDue = p.owesSort := by
  rw [isDue, Plan.owesSort, horder, h.isSettled_eq]
  simp

/-- Where no sort is due it makes no difference whether the order is needed. -/
theorem Shows.of_not_owesSort (h : a.Shows p false) (howes : p.owesSort = false) (isNeeded : Bool) :
    a.Shows p isNeeded := by
  constructor
  · rw [h.isSettled_eq]
    have hsettles : p.settles ∨ p.header.order.isEmpty := by
      simp only [Plan.owesSort, Bool.and_eq_false_iff, Bool.not_eq_false'] at howes
      exact howes.symm
    rcases hsettles with hsettles | hempty
    · simp [hsettles]
    · simp [hempty]
  · rw [h.order_eq, howes]
    simp

/-- A sort over a corrected input is due, and will be idle, just if it is overlooked. -/
theorem Shows.idle_iff (h : a.Shows p false) (horder : a.order = p.header.order)
    (order : SortOrder) :
    (Arranged.mk a.plan order (a.isSettled && a.order.startsWith order)).isDue ∧
      a.plan.header.order.startsWith order ↔ p.overlooks order := by
  have hsettled : a.isSettled = p.settles := by simpa using h.isSettled_eq
  have hphysical : a.plan.header.order = p.physicalOrder := by simpa using h.order_eq
  simp only [isDue, Plan.overlooks, hsettled, hphysical, horder, Bool.and_eq_true]
  exact and_right_comm

theorem Shows.finish (h : a.Shows p false) (horder : a.order = p.header.order) (isNeeded : Bool) :
    (a.finish .keeps isNeeded).Shows p isNeeded := by
  rw [finish_keeps, h.isDue_eq horder]
  split
  · -- A sort is due and needed, so it is put back, and the rows come in its order.
    rename_i hcond
    obtain ⟨rfl, howes⟩ := Bool.and_eq_true_iff.mp hcond
    have hnonempty : p.header.order.isEmpty = false := by
      simp only [Plan.owesSort, Bool.and_eq_true, Bool.not_eq_true'] at howes
      exact howes.1
    constructor
    · simp [settle, hnonempty]
    · rw [if_pos hcond, ← horder]
      rfl
  · -- Nothing is put back: no sort is due, or none is needed.
    rename_i hcond
    cases howes : p.owesSort with
    | false => exact h.of_not_owesSort howes isNeeded
    | true =>
      have hneeded : isNeeded = false := by simpa [howes] using hcond
      rw [hneeded]
      exact h

/-- An operator over its corrected input shows what is read off the plan. -/
theorem Shows.over {op : Unary} {input : Plan} (h : a.Shows input op.needsOrder)
    (hop : ∀ order, op ≠ .sort order) (order : SortOrder) :
    (Arranged.mk (.unary op a.plan) order a.isSettled).Shows (.unary op input) false := by
  constructor
  · rw [Plan.settles_unary hop, h.isSettled_eq]
    simp
  · rw [Plan.physicalOrder_unary hop]
    refine op.order_header_congr ?_
    rw [h.order_eq]
    rfl

end Arranged

namespace Plan

/-- **What is due above a corrected plan, and the order of its header**, where the order of the plan
cannot be seen or an operator above needs it. -/
theorem shows_of_arrange : ∀ {p : Plan} {isNeeded : Bool} {demand : Demand} {a : Arranged},
    p.arrange .standard isNeeded demand = .ok a → p.joinFree → demand ≠ .observed →
    a.Shows p isNeeded := by
  intro p
  induction p with
  | source leaf =>
    intro isNeeded demand a h _ _
    obtain rfl := arrange_source h
    exact ⟨rfl, by simp [owesSort, settles, physicalOrder, header]⟩
  | unary op input ih =>
    intro isNeeded demand a h hjoins hdemand
    rcases arrange_unary h with ⟨order, child, rfl, hchild, rfl⟩ | ⟨child, hop, hchild, rfl⟩ |
      ⟨mapping, child, step, hop, hchild, hstep, rfl⟩ | ⟨child, hop, hchild, rfl⟩
    · -- The sort is taken off, and its order takes the place of the one that was due.
      have hshows := ih hchild hjoins (fun h => by cases h)
      refine Arranged.Shows.finish ⟨?_, ?_⟩ rfl isNeeded
      · rw [order_of_arrange hchild hjoins, hshows.isSettled_eq]
        simp [settles]
      · exact hshows.order_eq
    · -- An operator that counts rows: a due sort was put back below it, so none is due above.
      have hshows := ih hchild hjoins (fun h => by cases h)
      rw [← hop] at hshows
      have hover := hshows.over (Unary.ne_sort (Or.inl hop)) child.order
      exact hover.of_not_owesSort (owesSort_of_needsOrder hop input) isNeeded
    · -- A selection.  Where the order is not observed, no sort is put back below it.
      have hshows := ih hchild hjoins hdemand
      have hsort := Unary.ne_sort (Or.inr (Or.inl (Option.isSome_of_eq_some hop)))
      have hcounts := Unary.needsOrder_eq_false (Or.inl (Option.isSome_of_eq_some hop))
      obtain ⟨base, hbase, _, rfl⟩ := Arranged.project_cases hstep
      obtain rfl : base = child := hbase.resolve_right fun h => hdemand h.2.1
      rw [← hcounts] at hshows
      refine (hshows.over hsort _).finish ?_ isNeeded
      rw [header, Unary.order_header_of_mapping hop, order_of_arrange hchild hjoins]
    · have hshows := ih hchild hjoins hdemand
      have hcounts := Unary.needsOrder_eq_false (Or.inr hop)
      rw [← hcounts] at hshows
      refine (hshows.over (Unary.ne_sort (Or.inr (Or.inr hop))) _).finish ?_ isNeeded
      rw [header, Unary.order_header_of_keepsPlaces hop, order_of_arrange hchild hjoins]
  | binary op left right _ _ =>
    intro isNeeded demand a h hjoins _
    rcases arrange_binary h with ⟨l, r, hop, _, _, rfl⟩ | ⟨l, r, hop, _, _, rfl⟩
    · simp [joinFree, hop] at hjoins
    · refine Arranged.Shows.of_not_owesSort ⟨rfl, ?_⟩ (by simp [owesSort, settles]) isNeeded
      cases op <;> first | rfl | cases hop

end Plan

/-! ### Where idle sorts come from -/

namespace Arranged

/-- A corrected plan has an idle sort, or its order is seen and the sort by it that is due will be
idle. -/
def Idles (a : Arranged) (isSeen : Bool) : Prop :=
  a.plan.HasIdleSort ∨ isSeen ∧ a.isDue ∧ a.plan.header.order.startsWith a.order

variable {a : Arranged} {op : Unary} {isSeen : Bool}

theorem idles_of_not_isDue (h : a.isDue = false) : a.Idles isSeen ↔ a.plan.HasIdleSort := by
  simp [Idles, h]

theorem idles_settle (hseen : isSeen) (hdue : a.isDue) :
    a.settle.Idles isSeen ↔ a.Idles isSeen := by
  have hsettled : a.settle.isDue = false := by simp [settle, isDue]
  rw [idles_of_not_isDue hsettled, settle, Plan.hasIdleSort_sort, or_comm]
  simp [Idles, hseen, hdue]

/-- Putting back a sort that is needed makes it idle or not, as it would have been. -/
theorem idles_finish (a : Arranged) {isNeeded : Bool} (hseen : isNeeded → isSeen) :
    (a.finish .keeps isNeeded).Idles isSeen ↔ a.Idles isSeen := by
  rw [finish_keeps]
  split
  · rename_i hcond
    obtain ⟨hneeded, hdue⟩ := Bool.and_eq_true_iff.mp hcond
    exact idles_settle (hseen hneeded) hdue
  · rfl

/-- An operator that keeps order and places changes nothing about idle sorts. -/
theorem idles_keep (hop : op.keepsPlaces) :
    (Arranged.mk (.unary op a.plan) a.order a.isSettled).Idles isSeen ↔ a.Idles isSeen := by
  simp only [Idles, Plan.hasIdleSort_unary (Unary.ne_sort (Or.inr (Or.inr hop))), Plan.header,
    Unary.order_header_of_keepsPlaces hop]
  rfl

/-- A selection of all columns of the order changes nothing either. -/
theorem idles_remap {mapping : List Nat} (hop : op.mapping? = some mapping)
    (hnone : (a.order.remap mapping).2 = none) :
    (Arranged.mk (.unary op a.plan) (a.order.remap mapping).1 a.isSettled).Idles isSeen ↔
      a.Idles isSeen := by
  have hdue : (Arranged.mk (.unary op a.plan) (a.order.remap mapping).1 a.isSettled).isDue =
      a.isDue := by
    have hlength := SortOrder.length_remap hnone
    have hempty : (a.order.remap mapping).1.isEmpty = a.order.isEmpty := by
      rw [Bool.eq_iff_iff, List.isEmpty_iff_length_eq_zero,
        List.isEmpty_iff_length_eq_zero, hlength]
    simp only [isDue, hempty]
  have hsort := Unary.ne_sort (Or.inr (Or.inl (Option.isSome_of_eq_some hop)))
  simp only [Idles, Plan.hasIdleSort_unary hsort, hdue, Plan.header,
    Unary.order_header_of_mapping hop, SortOrder.startsWith_iff, SortOrder.remap_begins_iff hnone]

theorem idles_project {mapping : List Nat} {demand : Demand} {step : Arranged}
    (hop : op.mapping? = some mapping) (hstep : a.project op mapping demand = .ok step) :
    step.Idles (demand ≠ .ignored) ↔ a.Idles (demand ≠ .ignored) := by
  have hsort := Unary.ne_sort (Or.inr (Or.inl (Option.isSome_of_eq_some hop)))
  obtain ⟨base, hbase, hkept, rfl⟩ := project_cases hstep
  have hbaseIdles : base.Idles (demand ≠ .ignored) ↔ a.Idles (demand ≠ .ignored) := by
    rcases hbase with rfl | ⟨rfl, rfl, hdue⟩
    · rfl
    · exact idles_settle rfl hdue
  rw [← hbaseIdles]
  rcases hkept with hnone | hsettled | rfl
  · exact idles_remap hop hnone
  · -- Nothing is due on either side.
    rw [idles_of_not_isDue (by simp [isDue, hsettled]),
      idles_of_not_isDue (by simp [isDue, hsettled])]
    exact Plan.hasIdleSort_unary hsort
  · simp [Idles, Plan.hasIdleSort_unary hsort]

end Arranged

namespace Plan

/-- Some sort of a list is overlooked. -/
def OverlooksOne (sorts : List (SortOrder × Plan)) : Prop := ∃ s ∈ sorts, s.2.overlooks s.1

theorem overlooksOne_append (xs ys : List (SortOrder × Plan)) :
    OverlooksOne (xs ++ ys) ↔ OverlooksOne xs ∨ OverlooksOne ys := by
  simp only [OverlooksOne, List.mem_append, or_and_right, exists_or]

/-- **Corrected parts of a plan have idle sorts where a sort that is seen is overlooked.** -/
theorem idles_of_arrange : ∀ {p : Plan} {isNeeded : Bool} {demand : Demand} {a : Arranged},
    p.arrange .standard isNeeded demand = .ok a → p.joinFree → (isNeeded → demand ≠ .ignored) →
    (a.Idles (demand ≠ .ignored) ↔ OverlooksOne (p.seenSorts (demand ≠ .ignored))) := by
  intro p
  induction p with
  | source leaf =>
    intro isNeeded demand a h _ _
    obtain rfl := arrange_source h
    rw [Arranged.idles_of_not_isDue (by simp [Arranged.isDue])]
    simp [not_hasIdleSort_source, OverlooksOne, seenSorts]
  | unary op input ih =>
    intro isNeeded demand a h hjoins hseen
    have hseen' : isNeeded → decide (demand ≠ .ignored) := fun hneeded => by simp [hseen hneeded]
    rcases arrange_unary h with ⟨order, child, rfl, hchild, rfl⟩ | ⟨child, hop, hchild, rfl⟩ |
      ⟨mapping, child, step, hop, hchild, hstep, rfl⟩ | ⟨child, hop, hchild, rfl⟩
    · -- Below the sort nothing is seen, and the sort itself is overlooked or not.
      have hbelow : child.plan.HasIdleSort ↔ OverlooksOne (input.seenSorts false) := by
        simpa [Arranged.Idles] using ih hchild hjoins (fun h => by cases h)
      have hshows := shows_of_arrange hchild hjoins (fun h => by cases h)
      have hsort := hshows.idle_iff (order_of_arrange hchild hjoins) order
      rw [Arranged.idles_finish _ hseen', seenSorts, overlooksOne_append, ← hbelow, or_comm,
        Arranged.Idles]
      refine or_congr_right ?_
      rw [hsort]
      cases decide (demand ≠ .ignored) <;> simp [OverlooksOne]
    · -- Below an operator that counts rows everything is seen.
      have hcounted := ih hchild hjoins (fun _ h => by cases h)
      have hdue := not_isDue_of_arrange hchild
      have hsort := Unary.ne_sort (Or.inl hop)
      rw [Arranged.idles_of_not_isDue hdue] at hcounted
      have hdue' : (Arranged.mk (.unary op child.plan) child.order child.isSettled).isDue = false :=
        hdue
      rw [Arranged.idles_of_not_isDue hdue', hasIdleSort_unary hsort, hcounted,
        seenSorts_unary hsort, hop]
      rfl
    · have hcounts := Unary.needsOrder_eq_false (Or.inl (Option.isSome_of_eq_some hop))
      have hsort := Unary.ne_sort (Or.inr (Or.inl (Option.isSome_of_eq_some hop)))
      rw [Arranged.idles_finish _ hseen', Arranged.idles_project hop hstep,
        seenSorts_unary hsort, hcounts]
      exact ih hchild hjoins (fun h => by cases h)
    · have hcounts := Unary.needsOrder_eq_false (Or.inr hop)
      have hsort := Unary.ne_sort (Or.inr (Or.inr hop))
      rw [Arranged.idles_finish _ hseen', Arranged.idles_keep hop, seenSorts_unary hsort, hcounts]
      exact ih hchild hjoins (fun h => by cases h)
  | binary op left right ihl ihr =>
    intro isNeeded demand a h hjoins _
    simp only [joinFree, Bool.and_eq_true, Bool.not_eq_true'] at hjoins
    obtain ⟨⟨hop, hjoinsl⟩, hjoinsr⟩ := hjoins
    rcases arrange_binary h with ⟨l, r, hjoin, _, _, rfl⟩ | ⟨l, r, _, hl, hr, rfl⟩
    · rw [hop] at hjoin
      cases hjoin
    · have hleft : l.plan.HasIdleSort ↔ OverlooksOne (left.seenSorts false) := by
        simpa [Arranged.Idles] using ihl hl hjoinsl (fun h => by cases h)
      have hright : r.plan.HasIdleSort ↔ OverlooksOne (right.seenSorts false) := by
        simpa [Arranged.Idles] using ihr hr hjoinsr (fun h => by cases h)
      rw [Arranged.idles_of_not_isDue rfl, hasIdleSort_binary, hleft, hright, seenSorts, hop,
        Bool.false_and, overlooksOne_append]

/-! ### Sorts that do not stand above one another -/

/-- Whether no sort stands above the unions and concatenations in a plan. -/
def isUnsorted : Plan → Bool
  | .source _ => true
  | .unary (.sort _) _ => false
  | .unary _ input => input.isUnsorted
  | .binary _ _ _ => true

theorem joinFree_of_mem_subplans {q : Plan} :
    ∀ {p : Plan}, p.joinFree → q ∈ p.subplans → q.joinFree := by
  intro p
  induction p with
  | source leaf =>
    intro hp hq
    rwa [List.mem_singleton.mp hq]
  | unary op input ih =>
    intro hp hq
    rcases List.mem_cons.mp hq with rfl | hq
    · exact hp
    · exact ih hp hq
  | binary op left right ihl ihr =>
    intro hp hq
    rcases List.mem_cons.mp hq with rfl | hq
    · exact hp
    · simp only [joinFree, Bool.and_eq_true] at hp
      rcases List.mem_append.mp hq with hq | hq
      · exact ihl hp.1.2 hq
      · exact ihr hp.2 hq

/-- Without sorts the correction knows the order of a plan, which is that of its header. -/
theorem physicalOrder_of_isUnsorted : ∀ {p : Plan}, p.joinFree → p.isUnsorted →
    p.settles ∧ p.physicalOrder = p.header.order := by
  intro p
  induction p with
  | source leaf => intro _ _; exact ⟨rfl, rfl⟩
  | unary op input ih =>
    intro hjoins hunsorted
    have hop : ∀ order, op ≠ .sort order := by
      rintro order rfl
      cases hunsorted
    -- There is no sort below the operator either.
    have hinput : input.isUnsorted := by
      cases op with
      | sort order => exact absurd rfl (hop order)
      | _ => exact hunsorted
    obtain ⟨hsettles, horder⟩ := ih hjoins hinput
    refine ⟨by rw [settles_unary hop, hsettles, Bool.true_or], ?_⟩
    rw [physicalOrder_unary hop, horder, ite_self]
    exact op.order_header_congr rfl
  | binary op left right _ _ =>
    intro hjoins _
    refine ⟨rfl, ?_⟩
    cases op <;> first | rfl | simp [joinFree, Binary.isJoin] at hjoins

theorem not_overlooks_of_isUnsorted {input : Plan} (hjoins : input.joinFree) (h : input.isUnsorted)
    (order : SortOrder) : input.overlooks order = false := by
  obtain ⟨hsettles, horder⟩ := physicalOrder_of_isUnsorted hjoins h
  rw [overlooks, hsettles, horder]
  cases input.header.order.startsWith order <;> simp

/-- **A corrected plan has an idle sort exactly if a sort of the plan that is seen is overlooked**,
and none if no sort of the plan stands above another one with no union or concatenation between
them. -/
theorem hasIdleSort_correctOrder_iff {p q : Plan} (hjoins : p.joinFree)
    (hq : p.correctOrder .standard = .ok q) :
    (q.HasIdleSort ↔ ∃ s ∈ p.seenSorts true, s.2.overlooks s.1) ∧
      ((∀ order input, .unary (.sort order) input ∈ p.subplans → input.isUnsorted) →
        ¬ q.HasIdleSort) := by
  obtain ⟨a, ha, hq⟩ := bind_eq_ok_iff.mp hq
  obtain rfl := Except.ok.inj hq
  have hidles : a.Idles true ↔ ∃ s ∈ p.seenSorts true, s.2.overlooks s.1 :=
    idles_of_arrange ha hjoins (fun h => by cases h)
  -- A sort that is due at the top is put back there, and is idle just if it would have been.
  have hiff : (if a.isDue then a.settle.plan else a.plan).HasIdleSort ↔
      ∃ s ∈ p.seenSorts true, s.2.overlooks s.1 := by
    rw [← hidles]
    split
    · rename_i hdue
      have hsettled : a.settle.isDue = false := by simp [Arranged.settle, Arranged.isDue]
      rw [← Arranged.idles_settle rfl hdue, Arranged.idles_of_not_isDue hsettled]
    · rename_i hdue
      rw [Arranged.idles_of_not_isDue (Bool.eq_false_iff.mpr hdue)]
  -- If there is no sort below a sort, none is overlooked.
  refine ⟨hiff, fun hsingle hidle => ?_⟩
  obtain ⟨s, hs, hoverlooks⟩ := hiff.mp hidle
  have hmem := mem_subplans_of_mem_seenSorts hs
  have hsort := joinFree_of_mem_subplans hjoins hmem
  have hinput : s.2.joinFree := hsort
  rw [not_overlooks_of_isUnsorted hinput (hsingle s.1 s.2 hmem)] at hoverlooks
  cases hoverlooks

end Plan

namespace Sample

/-- A table with a key of two columns. -/
def visits : Plan := .source (.scan (.primary 1 "Visits"
  [⟨"day", .int32, false⟩, ⟨"hour", .int32, false⟩] [.asc 0, .asc 1]))

/-- The two visits at the latest hours, by day. -/
def lastVisits : Plan :=
  .unary (.sort [.asc 0]) (.unary (.take 2) (.unary (.sort [.desc 1]) visits))

/-- Both sorts stay, and neither is idle. -/
theorem hasIdleSort_correctOrder_lastVisits :
    lastVisits.joinFree ∧ lastVisits.correctOrder .standard = .ok lastVisits ∧
      ¬ lastVisits.HasIdleSort := by
  have hjoins : lastVisits.joinFree := rfl
  have hcorrected : lastVisits.correctOrder .standard = .ok lastVisits := rfl
  refine ⟨hjoins, hcorrected, ?_⟩
  rw [(Plan.hasIdleSort_correctOrder_iff hjoins hcorrected).1]
  decide

/-- The correction leaves an idle sort in a plan. -/
def KeepsIdleSort (p : Plan) : Prop :=
  p.joinFree ∧ ∃ q, p.correctOrder .standard = .ok q ∧ q.HasIdleSort

/-- A sort by day above one by hour, and a sort by the whole key above one by its first column: in
both cases the table comes in the order of the upper sort, which is kept. -/
theorem correction_keeps_idle_sort :
    KeepsIdleSort (.unary (.sort [.asc 0]) (.unary (.sort [.asc 1]) visits)) ∧
    KeepsIdleSort
      (.unary (.sort [.asc 0, .asc 1]) (.unary (.take 2) (.unary (.sort [.asc 0]) visits))) := by
  refine ⟨⟨rfl, .unary (.sort [.asc 0]) visits, rfl, ?_⟩,
    rfl, .unary (.sort [.asc 0, .asc 1]) (.unary (.take 2) visits), rfl, ?_⟩
  · exact ⟨[.asc 0], visits, Plan.mem_subplans_self _, rfl⟩
  · exact ⟨[.asc 0, .asc 1], .unary (.take 2) visits, Plan.mem_subplans_self _, rfl⟩

end Sample

end QueryPlanner
