import QueryPlanner.Proofs.Access.Unordered
import QueryPlanner.Proofs.Paging.Collapse
import QueryPlanner.Proofs.Run.Linear

/-!
# Plans over one leaf that do not depend on how rows reach their sorts

A plan over one leaf is steady if no two rows that reach a sort tie and nothing below a sort counts
rows.  Then only the rows that reach a sort matter and not their order: below a sort a filter may be
read through any index.  Collapsed paging keeps plans steady, since it changes nothing below a sort.

## Main definitions

* `Unary.SteadyOver`, `Plan.Steady` — what is asked of each operator, and of a plan.

## Main results

* `Plan.Steady.collapsePaging` — collapsing paging keeps a plan steady.
* `Plan.Steady.run_collapsePaging_eq` — and its rows.
* `Selector.run_rewrite_steady` — replacing filters in a steady plan keeps its rows, in their order.
-/

namespace QueryPlanner

open Value (TransitiveOn)

/-- What is asked of an operator over a plan: filters can be evaluated on every row, rows reach a
sort without ties and uncounted, and no operator drops duplicates or aggregates. -/
def Unary.SteadyOver (store : Store) (S : Set Value) (b : Bindings) (input : Plan) : Unary → Prop
  | .filter predicate => predicate.Ready b S input.header.width
  | .sort order => input.countsNothing ∧ ∀ rows, input.run store b = .ok rows →
      (∀ row ∈ rows, order.HasKeys S row) ∧ order.Tieless rows
  | op => op.isLinear

/-- A plan over one leaf whose operators are steady. -/
def Plan.Steady (store : Store) (S : Set Value) (b : Bindings) (leaf : Source) : Plan → Prop
  | .source l => l = leaf
  | .unary op input => input.Steady store S b leaf ∧ op.SteadyOver store S b input
  | .binary _ _ _ => False

variable {store : Store} {S : Set Value} {b : Bindings} {leaf : Source}

theorem Unary.SteadyOver.isLinear {op : Unary} {input : Plan} (h : op.SteadyOver store S b input) :
    op.isLinear := by
  cases op <;> first | rfl | exact h

namespace Plan

/-! ### What follows for the rows of all parts -/

theorem Steady.fits (hleaf : leaf.Fits store) : ∀ {p : Plan}, p.Steady store S b leaf →
    p.Fits store := by
  intro p
  induction p with
  | source l =>
    intro h
    obtain rfl := h
    exact hleaf
  | unary op input ih => intro h; exact ih h.1
  | binary op left right _ _ => intro h; exact h.elim

/-- No part gives more rows than the leaf. -/
theorem Steady.isShort
    (hleaf : ∀ rows, leaf.run store b = .ok rows → rows.length < UInt64.size) : ∀ {p : Plan},
    p.Steady store S b leaf → p.Throughout store (IsShort store) b := by
  intro p
  induction p with
  | source l =>
    intro h
    obtain rfl := h
    exact hleaf
  | unary op input ih =>
    intro h
    have hinput := ih h.1
    refine ⟨fun out hout => ?_, hinput⟩
    obtain ⟨rows, hrows, hout⟩ := bind_eq_ok_iff.mp hout
    exact lt_of_le_of_lt (Unary.length_run_le h.2.isLinear hout) (hinput.self rows hrows)
  | binary op left right _ _ => intro h; exact h.elim

theorem Steady.eq_leaf {l : Source} : ∀ {p : Plan}, p.Steady store S b leaf →
    Plan.source l ∈ p.subplans → l = leaf := by
  intro p
  induction p with
  | source l' =>
    intro h hmem
    obtain rfl := h
    simpa [subplans] using hmem
  | unary op input ih =>
    intro h hmem
    exact ih h.1 (by simpa [subplans] using hmem)
  | binary op left right _ _ => intro h; exact h.elim

/-! ### Collapsed paging -/

variable {support : PagingSupport}

/-- Where nothing is counted there is nothing to collapse. -/
theorem collapsePaging_of_countsNothing (support : PagingSupport) : ∀ {p : Plan}, p.countsNothing →
    p.collapsePaging support = p := by
  -- Without a window there is nothing to put back.
  have hcollapse : ∀ {p : Plan}, p.peelPaging support = (.unbounded, p) →
      p.collapsePaging support = p := by
    intro p h
    rw [collapsePaging, h]
    rfl
  intro p
  induction p with
  | source leaf => intro _; rfl
  | unary op input ih =>
    intro h
    simp only [countsNothing, Bool.and_eq_true, Bool.not_eq_true'] at h
    have hafter : (input.peelPaging support).1.after? op = none := by
      cases op <;> first | rfl | cases h.1
    refine hcollapse ?_
    rw [peelPaging_unary, hafter, ih h.2]
  | binary op left right ihl ihr =>
    intro h
    simp only [countsNothing, Bool.and_eq_true] at h
    refine hcollapse ?_
    rw [peelPaging_binary, ihl h.1, ihr h.2]

theorem Steady.apply (w : Window) {p : Plan} (h : p.Steady store S b leaf) :
    (w.apply p).Steady store S b leaf := by
  obtain ⟨skipped, taken⟩ := w
  cases skipped <;> cases taken <;> first | exact h | exact ⟨h, rfl⟩

theorem Steady.applyWith (w : Window) {p : Plan} (h : p.Steady store S b leaf) :
    (w.applyWith support p).Steady store S b leaf := by
  unfold Window.applyWith
  split
  · exact h
  split
  · exact h.apply w
  · have hnumbered :
        (Plan.unary (.number (p.header.freshName rowNumberName)) p).Steady store S b leaf :=
      ⟨h, rfl⟩
    exact ⟨hnumbered.apply w, rfl⟩

/-- **Collapsing paging keeps a plan steady.** -/
theorem Steady.collapsePaging : ∀ {p : Plan}, p.Steady store S b leaf →
    (p.collapsePaging support).Steady store S b leaf := by
  have hpeel : ∀ {p : Plan}, p.Steady store S b leaf →
      (p.peelPaging support).2.Steady store S b leaf := by
    intro p
    induction p with
    | source l => intro h; exact h
    | unary op input ih =>
      intro h
      rw [peelPaging_unary]
      split
      · exact ih h.1
      · refine ⟨(ih h.1).applyWith _, ?_⟩
        have hover := h.2
        cases op with
        | filter predicate =>
          show predicate.Ready b S (input.collapsePaging support).header.width
          rw [width_collapsePaging]
          exact hover
        | sort order =>
          -- Nothing is counted below a sort, so nothing changes there.
          show (Unary.sort order).SteadyOver store S b (input.collapsePaging support)
          rw [collapsePaging_of_countsNothing support hover.1]
          exact hover
        | _ => exact hover
    | binary op left right _ _ => intro h; exact h.elim
  intro p h
  exact (hpeel h).applyWith _

theorem Steady.run_collapsePaging_eq {p : Plan} (h : p.Steady store S b leaf)
    (hfits : leaf.Fits store)
    (hshort : ∀ rows, leaf.run store b = .ok rows → rows.length < UInt64.size) :
    (p.collapsePaging support).run store b = p.run store b := by
  have hpeel := (run_peelPaging support (h.fits hfits) (h.isShort hshort)).1
  rw [Plan.run_collapsePaging_eq support (h.fits hfits), hpeel]

end Plan

/-! ### Index selection -/

namespace Selector

variable {s : Selector} {expected : Bindings} {store : Tables}

/-- **Replacing filters in a steady plan keeps its rows in their order**, and where the order cannot
be seen and nothing is counted it keeps them in some order. -/
theorem run_rewrite_steady (heffects : s.effects = .standard) (hS : TransitiveOn S)
    (hserves : ∀ i, leaf = .scan i → i.isPrimary → s.Serves store S i) :
    ∀ {p : Plan} {out : List Row},
    p.Steady store S b leaf → p.run store b = .ok out →
    (s.rewrite expected p true).run store b = .ok out ∧
      (p.countsNothing → ∃ out', (s.rewrite expected p false).run store b = .ok out' ∧
        out'.Perm out) := by
  intro p
  induction p with
  | source l => intro out _ hrun; exact ⟨hrun, fun _ => ⟨out, hrun, List.Perm.refl _⟩⟩
  | unary op input ih =>
    intro out h hrun
    rcases rewrite_unary_cases s expected op input with ⟨predicate, primary, rfl, rfl⟩ | hstep
    · have hprimary : primary.isPrimary → s.Serves store S primary := hserves primary h.1.symm
      refine ⟨?_, fun _ => exists_run_rewrite_filter hS hprimary h.2 hrun⟩
      have hready : FiltersReady store S
          (.unary (.filter predicate) (.source (.scan primary))) b := by
        refine ⟨?_, fun e i he => by cases he⟩
        rintro e i ⟨⟩
        exact h.2
      refine (eq_ok_iff_of_toOption_eq
        (toOption_run_rewrite heffects hS _ b rfl ?_ hready) out).mpr hrun
      exact fun i hi => hserves i (h.eq_leaf hi).symm
    · obtain ⟨rows, hrows, hout⟩ := bind_eq_ok_iff.mp hrun
      obtain ⟨hsame, hperm⟩ := ih h.1 hrows
      rw [hstep, hstep, observes_eq heffects, observes_eq heffects]
      constructor
      · cases op with
        | sort order =>
          -- The rows reach the sort in another order, which makes no difference without ties.
          obtain ⟨hcounts, hties⟩ := h.2
          obtain ⟨given, hgiven, hperm⟩ := hperm hcounts
          obtain ⟨hkeys, htieless⟩ := hties rows hrows
          show (Plan.unary (.sort order) (s.rewrite expected input false)).run store b = .ok out
          rw [Plan.run, hgiven, ok_bind, Unary.run, htieless.sort_eq hS hkeys hperm]
          exact hout
        | _ =>
          show (Plan.unary _ (s.rewrite expected input true)).run store b = .ok out
          rw [Plan.run, hsame]
          exact hout
      · intro hcounts
        simp only [Plan.countsNothing, Bool.and_eq_true, Bool.not_eq_true'] at hcounts
        obtain ⟨given, hgiven, hperm⟩ := hperm hcounts.2
        obtain ⟨out', hout', hperm'⟩ :=
          Unary.exists_run_of_perm h.2.isLinear hcounts.1 hperm hout
        refine ⟨out', ?_, hperm'⟩
        rw [Plan.run, Bool.false_and, hgiven, ok_bind, hout']
  | binary op left right _ _ => intro out h; exact h.elim

end Selector

end QueryPlanner
