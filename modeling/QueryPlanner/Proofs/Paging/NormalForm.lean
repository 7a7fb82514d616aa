import QueryPlanner.Proofs.Paging.Collapse
import QueryPlanner.Proofs.Paging.FreshNames

/-!
# The shape of collapsed paging

What is left of a chain is one step, which a dialect can either do itself or which picks from
numbered rows.  The plan below a chain begins with no paging, so no two steps meet; a window that
passes everything leaves no step at all, so what a step skips is never nothing.  The number of a row
goes into a column of its own, as its name is fresh.

## Main definitions

* `Plan.steps` — the operators with one input in a plan, each with what stands right above and below
  it.
* `Plan.Step.IsNative` — a dialect has the step itself.
* `Plan.Step.IsPhysical` — a step of paging that a dialect can carry out.

## Main results

* `Window.isPhysical_applyWith` — applying a window adds no step that a dialect cannot carry out.
* `Plan.isPhysical_of_mem_steps_collapsePaging` — **every step of paging in a collapsed plan can be
  carried out**.
-/

namespace QueryPlanner

/-! ### Steps -/

theorem PagingSupport.supports_iff (support : PagingSupport) (skips takes : Bool) :
    support.supports skips takes ↔ (skips → support.skip) ∧ (takes → support.take) := by
  simp [supports, imp_iff_not_or]

namespace Unary

/-- An operator that leaves rows out by their place. -/
def isPaging : Unary → Bool
  | .skip _ | .take _ | .page _ _ => true
  | _ => false

/-- How many rows a step of paging skips, if it skips. -/
def skipped? : Unary → Option Nat
  | .skip count => some count
  | .page before _ => some before
  | _ => none

/-- How many rows a step of paging takes, if it takes. -/
def taken? : Unary → Option Nat
  | .take count => some count
  | .page _ count => some count
  | _ => none

end Unary

namespace Plan

/-- An operator with one input where it stands in a plan: with the operator right above it, if that
has one input too, and with its input. -/
structure Step where
  above : Option Unary
  op : Unary
  input : Plan

/-- The steps of a plan that stands below an operator. -/
def stepsBelow (above : Option Unary) : Plan → List Step
  | .source _ => []
  | .unary op input => ⟨above, op, input⟩ :: input.stepsBelow (some op)
  | .binary _ left right => left.stepsBelow none ++ right.stepsBelow none

/-- The steps of a plan. -/
def steps (p : Plan) : List Step := p.stepsBelow none

/-- A plan that does not begin with a step of paging. -/
def isUnpaged : Plan → Bool
  | .unary op _ => !op.isPaging
  | _ => true

/-- The step picks from numbered rows: the number is in a column of its own, and it is dropped right
above the step. -/
def Step.PicksNumbered (s : Step) : Prop :=
  ∃ name base, s.input = .unary (.number name) base ∧ (∀ c ∈ base.header.columns, c.name ≠ name) ∧
    s.above = some (.select (List.range base.header.width))

/-- A dialect has the step: it has skips if the step skips, and takes if the step takes. -/
structure Step.IsNative (support : PagingSupport) (s : Step) : Prop where
  skip : s.op.skipped?.isSome → support.skip
  take : s.op.taken?.isSome → support.take

/-- A step of paging that a dialect can carry out: it stands on no other step of paging, what it
skips is not nothing, and the dialect has it or it picks from numbered rows. -/
structure Step.IsPhysical (support : PagingSupport) (s : Step) : Prop where
  isUnpaged_input : s.input.isUnpaged
  skipped_pos : ∀ n, s.op.skipped? = some n → 0 < n
  isCarried : s.IsNative support ∨ s.PicksNumbered

/-- Every step of paging in a plan can be carried out, whatever stands above the plan. -/
def IsPhysical (support : PagingSupport) (p : Plan) : Prop :=
  ∀ above, ∀ s ∈ p.stepsBelow above, s.op.isPaging → s.IsPhysical support

variable {support : PagingSupport}

theorem IsPhysical.unary {op : Unary} {p : Plan} (hp : p.IsPhysical support)
    (hop : ∀ above, op.isPaging → Step.IsPhysical support ⟨above, op, p⟩) :
    (Plan.unary op p).IsPhysical support := by
  intro above s hs hpaging
  rcases List.mem_cons.mp hs with rfl | hs
  · exact hop above hpaging
  · exact hp (some op) s hs hpaging

theorem IsPhysical.binary {l r : Plan} (hl : l.IsPhysical support) (hr : r.IsPhysical support)
    (op : Binary) : (Plan.binary op l r).IsPhysical support := by
  intro above s hs hpaging
  rcases List.mem_append.mp hs with hs | hs
  · exact hl none s hs hpaging
  · exact hr none s hs hpaging

end Plan

/-! ### What applying a window adds -/

namespace Window

variable {support : PagingSupport}

theorem isPaging_of_after? {w : Window} {op : Unary} (h : w.after? op = none) :
    op.isPaging = false := by
  cases op <;> first | rfl | cases h

/-- **A window that leaves something out is one step**, which skips and takes what the window does.
-/
theorem exists_step {w : Window} (h : w.isUnbounded = false) : ∃ op : Unary,
    (∀ p, w.apply p = .unary op p) ∧ (∀ n, op.skipped? = some n → 0 < n) ∧
      op.skipped?.isSome = decide (0 < w.skipped) ∧ op.taken?.isSome = w.taken.isSome := by
  obtain ⟨skipped, taken⟩ := w
  -- A window that skips nothing is a take, one that takes everything a skip, and any other a page.
  cases skipped with
  | zero =>
    cases taken with
    | none => cases h
    | some t => exact ⟨.take t, fun _ => rfl, fun n hn => (by cases hn), rfl, rfl⟩
  | succ s =>
    cases taken with
    | none =>
      refine ⟨.skip (s + 1), fun _ => rfl, fun n hn => ?_, by simp [Unary.skipped?], rfl⟩
      obtain rfl := Option.some.inj hn
      exact s.succ_pos
    | some t =>
      refine ⟨.page (s + 1) t, fun _ => rfl, fun n hn => ?_, by simp [Unary.skipped?], rfl⟩
      obtain rfl := Option.some.inj hn
      exact s.succ_pos

/-- **Applying a window adds no step that a dialect cannot carry out** to a plan that begins with no
paging. -/
theorem isPhysical_applyWith (w : Window) {p : Plan} (hunpaged : p.isUnpaged)
    (hp : p.IsPhysical support) : (w.applyWith support p).IsPhysical support := by
  unfold applyWith
  split
  · exact hp
  · rename_i hbounded
    obtain ⟨op, happly, hpos, hskips, htakes⟩ := exists_step (Bool.eq_false_iff.mpr hbounded)
    split
    · -- The dialect has the step.
      rename_i hsupport
      rw [happly]
      rw [← hskips, ← htakes, PagingSupport.supports_iff] at hsupport
      exact hp.unary fun above _ => ⟨hunpaged, hpos, .inl ⟨hsupport.1, hsupport.2⟩⟩
    · -- The step picks from numbered rows, between the numbering and the selection.
      simp only [happly]
      intro above s hs hpaging
      rcases List.mem_cons.mp hs with rfl | hs
      · cases hpaging
      rcases List.mem_cons.mp hs with rfl | hs
      · exact ⟨rfl, hpos, .inr ⟨_, p, rfl, fun c hc => Header.name_ne_freshName hc _, rfl⟩⟩
      · exact hp.unary (fun _ hnumber => by cases hnumber) _ s hs hpaging

end Window

/-! ### Collapsed plans -/

namespace Plan

/-- The plan below the chain of a plan begins with no paging, and all its paging can be carried out.
-/
theorem isPhysical_peelPaging (support : PagingSupport) : ∀ p : Plan,
    (p.peelPaging support).2.isUnpaged ∧ (p.peelPaging support).2.IsPhysical support := by
  intro p
  induction p with
  | source leaf => exact ⟨rfl, fun above s hs => by cases hs⟩
  | unary op input ih =>
    rw [peelPaging_unary]
    split
    · -- The operator joins the chain, and the plan below the chain stays the same.
      exact ih
    · rename_i hend
      have hop := Window.isPaging_of_after? hend
      refine ⟨by simp [isUnpaged, hop], ?_⟩
      refine (Window.isPhysical_applyWith _ ih.1 ih.2).unary fun _ hpaging => ?_
      rw [hop] at hpaging
      cases hpaging
  | binary op left right ihl ihr =>
    rw [peelPaging_binary]
    refine ⟨rfl, IsPhysical.binary ?_ ?_ op⟩
    · exact Window.isPhysical_applyWith _ ihl.1 ihl.2
    · exact Window.isPhysical_applyWith _ ihr.1 ihr.2

/-- **Every step of paging in a collapsed plan can be carried out**: it stands on no other step of
paging, it does not skip nothing, and the dialect has it or it picks from numbered rows. -/
theorem isPhysical_of_mem_steps_collapsePaging (support : PagingSupport) (p : Plan) {s : Step}
    (hs : s ∈ (p.collapsePaging support).steps) (hpaging : s.op.isPaging) :
    s.IsPhysical support := by
  obtain ⟨hunpaged, hphysical⟩ := isPhysical_peelPaging support p
  exact Window.isPhysical_applyWith _ hunpaged hphysical none s hs hpaging

end Plan

namespace Sample

/-- Rows with a column that already has the name of a row number. -/
def rankedRows : Plan :=
  .source (.rows ⟨[⟨"RowNumber", .int64, false⟩], []⟩ [[.int64 1], [.int64 2]])

/-- A chain on a chain, with a chain that passes everything in between. -/
def doublyPaged : Plan := .unary (.take 1) (.unary .distinct (.unary (.skip 0)
  (.unary .distinct (.unary (.take 3) (.unary (.skip 1) rankedRows)))))

/-- The numbered rows that the inner chain picks from; the name of the numbers is the next free one.
-/
def numberedRanks : Plan := .unary (.number "RowNumber0") rankedRows

/-- A dialect with takes alone. -/
def takesOnly : PagingSupport := ⟨true, false⟩

/-- A dialect with skips alone. -/
def skipsOnly : PagingSupport := ⟨false, true⟩

/-- The inner chain of `doublyPaged`, which skips and takes, on numbered rows. -/
def pickedRanks : Plan.Step := ⟨some (.select [0]), .page 1 3, numberedRanks⟩

/-- A chain that skips alone, as a step of its own. -/
def skippedRanks : Plan.Step := ⟨none, .skip 1, rankedRows⟩

/-- The inner chain picks from numbered rows with takes alone and with skips alone, as either
dialect lacks a half of it; with skips alone, a chain that skips is left to the dialect. -/
theorem isPhysical_doublyPaged :
    (pickedRanks ∈ (doublyPaged.collapsePaging takesOnly).steps ∧
      pickedRanks.IsPhysical takesOnly) ∧
    (pickedRanks ∈ (doublyPaged.collapsePaging skipsOnly).steps ∧ pickedRanks.IsPhysical skipsOnly ∧
      ¬pickedRanks.IsNative skipsOnly) ∧
    (skippedRanks ∈ ((Plan.unary (.skip 1) rankedRows).collapsePaging skipsOnly).steps ∧
      skippedRanks.IsPhysical skipsOnly ∧ ¬skippedRanks.PicksNumbered) := by
  have htakes : pickedRanks ∈ (doublyPaged.collapsePaging takesOnly).steps := by
    have hstep : (doublyPaged.collapsePaging takesOnly).steps[4]? = some pickedRanks := rfl
    exact List.mem_of_getElem? hstep
  have hskips : pickedRanks ∈ (doublyPaged.collapsePaging skipsOnly).steps := by
    -- The outer chain takes, so here it picks from numbered rows too, which puts two steps more on
    -- top.
    have hstep : (doublyPaged.collapsePaging skipsOnly).steps[6]? = some pickedRanks := rfl
    exact List.mem_of_getElem? hstep
  have halone :
      skippedRanks ∈ ((Plan.unary (.skip 1) rankedRows).collapsePaging skipsOnly).steps := by
    have hstep : ((Plan.unary (.skip 1) rankedRows).collapsePaging skipsOnly).steps[0]? =
      some skippedRanks := rfl
    exact List.mem_of_getElem? hstep
  refine ⟨⟨htakes, ?_⟩, ⟨hskips, ?_, fun hnative => ?_⟩, halone, ?_, fun hpicks => ?_⟩
  · exact Plan.isPhysical_of_mem_steps_collapsePaging _ _ htakes rfl
  · exact Plan.isPhysical_of_mem_steps_collapsePaging _ _ hskips rfl
  · exact Bool.false_ne_true (hnative.take rfl)
  · exact Plan.isPhysical_of_mem_steps_collapsePaging _ _ halone rfl
  · obtain ⟨name, base, hinput, -⟩ := hpicks
    cases hinput

end Sample

end QueryPlanner
