import QueryPlanner.Proofs.Ordering.Arrangement

/-!
# Correcting the order of rows moves sorts and nothing else

Sorts are taken off where they stand, their orders wait for an operator that needs them, and orders
that wait on both sides of a join are sorted by together.  Whatever the operators are said to do to
order, no other operator is lost, doubled or changed on the way, and no sort is added: a sort that
is put back pays for itself with one that was taken off before.

## Main definitions

* `Plan.eraseSorts` — a plan without its sorts.
* `Plan.sortCount` — how many sorts a plan has.
* `Arranged.owed` — how many sorts may still be put back above a corrected plan.
* `Arranged.Frames` — a corrected plan is the plan up to sorts, of which it has and owes no more.

## Main results

* `Plan.frames_of_arrange` — every part of a plan is corrected in this way.
* `Plan.eraseSorts_correctOrder` — **a corrected plan is the plan up to sorts, and has no more of
  them**.
-/

namespace QueryPlanner

namespace Plan

/-- The plan without its sorts, each replaced by its input. -/
def eraseSorts : Plan → Plan
  | .source leaf => .source leaf
  | .unary (.sort _) input => input.eraseSorts
  | .unary op input => .unary op input.eraseSorts
  | .binary op left right => .binary op left.eraseSorts right.eraseSorts

/-- How many sorts a plan has. -/
def sortCount : Plan → Nat
  | .source _ => 0
  | .unary (.sort _) input => input.sortCount + 1
  | .unary _ input => input.sortCount
  | .binary _ left right => left.sortCount + right.sortCount

variable {op : Unary} {p q : Plan}

theorem eraseSorts_unary_congr (op : Unary) (h : p.eraseSorts = q.eraseSorts) :
    (Plan.unary op p).eraseSorts = (Plan.unary op q).eraseSorts := by
  cases op <;> simp [eraseSorts, h]

theorem sortCount_unary (hop : ∀ order, op ≠ .sort order) (input : Plan) :
    (Plan.unary op input).sortCount = input.sortCount := by
  cases op with
  | sort order => exact absurd rfl (hop order)
  | _ => rfl

end Plan

namespace Arranged

/-- How many sorts may still be put back above a corrected plan: one, unless its order is settled.
-/
def owed (a : Arranged) : Nat := if a.isSettled then 0 else 1

theorem owed_eq_one_of_isDue {a : Arranged} (h : a.isDue) : a.owed = 1 := by
  have hunsettled : a.isSettled = false := by
    simp only [isDue, Bool.and_eq_true, Bool.not_eq_true'] at h
    exact h.2
  simp [owed, hunsettled]

/-- A corrected plan is a given one up to sorts, and has no more of them, with the sort that is
owed. -/
structure Frames (a : Arranged) (p : Plan) : Prop where
  eraseSorts_eq : a.plan.eraseSorts = p.eraseSorts
  sortCount_le : a.plan.sortCount + a.owed ≤ p.sortCount

variable {a : Arranged} {p : Plan} {op : Unary}

/-! ### Single steps -/

/-- A sort that is put back is no longer owed. -/
theorem Frames.settle (h : a.Frames p) (hdue : a.isDue) : a.settle.Frames p := by
  refine ⟨h.eraseSorts_eq, ?_⟩
  have hcount := h.sortCount_le
  rw [owed_eq_one_of_isDue hdue] at hcount
  exact hcount

/-- An order that nobody can rely on is forgotten, and the sort owed for it too. -/
theorem Frames.forget (h : a.Frames p) : (Arranged.mk a.plan [] true).Frames p :=
  ⟨h.eraseSorts_eq, Nat.le_trans (Nat.le_add_right _ _) h.sortCount_le⟩

/-- The last step may forget the order, and after that puts a sort back only if one is due. -/
theorem finish_cases (a : Arranged) (effect : OrderEffect) (isNeeded : Bool) :
    ∃ step, (step = a ∨ step = ⟨a.plan, [], true⟩) ∧
      (a.finish effect isNeeded = step ∨ a.finish effect isNeeded = step.settle ∧ step.isDue) := by
  refine ⟨if effect = .breaks then ⟨a.plan, [], true⟩ else a, ?_, ?_⟩
  · split
    · exact Or.inr rfl
    · exact Or.inl rfl
  · unfold finish
    generalize (if effect = .breaks then (⟨a.plan, [], true⟩ : Arranged) else a) = step
    dsimp only
    split
    · rename_i hcond
      exact Or.inr ⟨rfl, (Bool.and_eq_true_iff.mp hcond).2⟩
    · exact Or.inl rfl

theorem Frames.finish (h : a.Frames p) (effect : OrderEffect) (isNeeded : Bool) :
    (a.finish effect isNeeded).Frames p := by
  obtain ⟨step, hstep, hfinish⟩ := a.finish_cases effect isNeeded
  have hframes : step.Frames p := by
    rcases hstep with rfl | rfl
    · exact h
    · exact h.forget
  rcases hfinish with hfinish | ⟨hfinish, hdue⟩
  · rw [hfinish]
    exact hframes
  · rw [hfinish]
    exact hframes.settle hdue

/-- An operator other than a sort is put over the corrected input, with any order in the place of
the old one and the same sort owed. -/
theorem Frames.over (h : a.Frames p) (hop : ∀ order, op ≠ .sort order) (order : SortOrder) :
    (Arranged.mk (.unary op a.plan) order a.isSettled).Frames (.unary op p) := by
  refine ⟨Plan.eraseSorts_unary_congr op h.eraseSorts_eq, ?_⟩
  show (Plan.unary op a.plan).sortCount + a.owed ≤ (Plan.unary op p).sortCount
  rw [Plan.sortCount_unary hop, Plan.sortCount_unary hop]
  exact h.sortCount_le

theorem Frames.project {mapping : List Nat} {demand : Demand} {step : Arranged} (h : a.Frames p)
    (hop : ∀ order, op ≠ .sort order) (hstep : a.project op mapping demand = .ok step) :
    step.Frames (.unary op p) := by
  obtain ⟨base, hbase, _, rfl⟩ := project_cases hstep
  have hframes : base.Frames p := by
    rcases hbase with rfl | ⟨rfl, _, hdue⟩
    · exact h
    · exact h.settle hdue
  exact hframes.over hop _

/-- A sort is taken off, and is the one that is owed at most. -/
theorem Frames.sort (h : a.Frames p) (order : SortOrder) (isSettled : Bool) :
    (Arranged.mk a.plan order isSettled).Frames (.unary (.sort order) p) := by
  refine ⟨h.eraseSorts_eq, ?_⟩
  have howed : (Arranged.mk a.plan order isSettled).owed ≤ 1 := by
    unfold owed
    split <;> decide
  have hcount := h.sortCount_le
  simp only [Plan.sortCount]
  omega

theorem Frames.unary {demand : Demand} {step : Arranged} (h : a.Frames p)
    (hstep : Arranged.unary op demand a = .ok step) : step.Frames (.unary op p) := by
  cases op with
  | sort order =>
    obtain rfl := Except.ok.inj hstep
    exact h.sort order _
  | select columns | aggregate groups aggregates =>
    exact h.project (fun _ hsort => by cases hsort) hstep
  | _ =>
    obtain rfl := Except.ok.inj hstep
    exact h.over (fun _ hsort => by cases hsort) _

/-- Sorts that are owed on both sides of an operator are put back as one. -/
theorem Frames.binary {l r : Arranged} {left right : Plan} (hl : l.Frames left)
    (hr : r.Frames right) (op : Binary) :
    (Arranged.binary op l r).Frames (.binary op left right) := by
  constructor
  · simp only [Arranged.binary, Plan.eraseSorts, hl.eraseSorts_eq, hr.eraseSorts_eq]
  · have howed : (Arranged.binary op l r).owed ≤ l.owed + r.owed := by
      cases hsl : l.isSettled <;> cases hsr : r.isSettled <;> simp [owed, Arranged.binary, hsl, hsr]
    have hcountl := hl.sortCount_le
    have hcountr := hr.sortCount_le
    show (l.plan.sortCount + r.plan.sortCount) + (Arranged.binary op l r).owed ≤
      left.sortCount + right.sortCount
    omega

end Arranged

/-! ### Whole plans -/

namespace Plan

variable {effects : OrderEffects}

/-- **Every part of a plan is corrected by moving its sorts**, whatever operators do to order. -/
theorem frames_of_arrange : ∀ {p : Plan} {isNeeded : Bool} {demand : Demand} {a : Arranged},
    p.arrange effects isNeeded demand = .ok a → a.Frames p := by
  intro p
  -- One step for each operator, and a due sort may be put on top of each.
  induction p with
  | source leaf =>
    intro isNeeded demand a h
    obtain rfl := Except.ok.inj h
    have hleaf : (Arranged.mk (.source leaf) leaf.header.order true).Frames (.source leaf) :=
      ⟨rfl, Nat.le_refl _⟩
    exact hleaf.finish _ isNeeded
  | unary op input ih =>
    intro isNeeded demand a h
    obtain ⟨child, hchild, h⟩ := bind_eq_ok_iff.mp h
    obtain ⟨step, hstep, h⟩ := bind_eq_ok_iff.mp h
    obtain rfl := Except.ok.inj h
    exact ((ih hchild).unary hstep).finish _ isNeeded
  | binary op left right ihl ihr =>
    intro isNeeded demand a h
    obtain ⟨l, hl, h⟩ := bind_eq_ok_iff.mp h
    obtain ⟨r, hr, h⟩ := bind_eq_ok_iff.mp h
    obtain rfl := Except.ok.inj h
    exact ((ihl hl).binary (ihr hr) op).finish _ isNeeded

/-- **A corrected plan is the plan up to sorts, and has no more of them**, under every
classification of operators by their effect on order. -/
theorem eraseSorts_correctOrder {p q : Plan} (h : p.correctOrder effects = .ok q) :
    q.eraseSorts = p.eraseSorts ∧ q.sortCount ≤ p.sortCount := by
  obtain ⟨a, ha, h⟩ := bind_eq_ok_iff.mp h
  obtain rfl := Except.ok.inj h
  have hframes := frames_of_arrange ha
  split
  · rename_i hdue
    have hsettled := hframes.settle hdue
    exact ⟨hsettled.eraseSorts_eq, Nat.le_trans (Nat.le_add_right _ _) hsettled.sortCount_le⟩
  · exact ⟨hframes.eraseSorts_eq, Nat.le_trans (Nat.le_add_right _ _) hframes.sortCount_le⟩

end Plan

namespace Sample

/-- Three numbers, the least first. -/
def numbers : Plan :=
  .source (.rows ⟨[⟨"n", .int32, false⟩], [.asc 0]⟩ [[.int32 1], [.int32 2], [.int32 3]])

/-- The numbers, the greatest first. -/
def descending : Plan := .unary (.sort [.desc 0]) numbers

/-- The usual classification, for a dialect in which distinct rows come in no defined order. -/
def distinctBreaks : OrderEffects
  | .unary .distinct _ => .breaks
  | p => OrderEffects.standard p

/-- Three sorts below an operator that counts rows, one of them below an operator that breaks order.
-/
def firstPairs : Plan := .unary (.take 5) (.binary (.join .inner []) descending
  (.binary (.join .leftOuter []) descending (.unary .distinct descending)))

/-- One sort is forgotten, and the two others become one. -/
def firstPairsCorrected : Plan := .unary (.take 5) (.unary (.sort [.desc 0, .desc 1])
  (.binary (.join .inner []) numbers
    (.binary (.join .leftOuter []) numbers (.unary .distinct numbers))))

theorem eraseSorts_correctOrder_firstPairs :
    firstPairs.correctOrder distinctBreaks = .ok firstPairsCorrected ∧
      firstPairsCorrected.eraseSorts = firstPairs.eraseSorts ∧
      firstPairsCorrected.sortCount ≤ firstPairs.sortCount := by
  have hcorrected : firstPairs.correctOrder distinctBreaks = .ok firstPairsCorrected := rfl
  exact ⟨hcorrected, Plan.eraseSorts_correctOrder hcorrected⟩

end Sample

end QueryPlanner
