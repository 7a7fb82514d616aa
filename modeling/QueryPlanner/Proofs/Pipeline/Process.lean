import QueryPlanner.Pipeline
import QueryPlanner.Proofs.Pipeline.Corrected

/-!
# Preparing queries of one table

A query of one table filters, selects, calculates, renames, sorts, pages and numbers the rows of a
leaf.  If nothing is counted below a sort and no rows that reach a sort tie, it is steady, and each
of the three steps that prepare it keeps its rows in their order and leaves it steady.  So they do
together, whichever of them are taken.  Index selection reads other indexes than the query does; it
relies on the store to give the rows of the table there as well.

## Main definitions

* `Plan.IsTableQuery` — a query of one table that counts nothing below its sorts.
* `Plan.TableQuery` — such a query over rows that are as declared, without ties at its sorts.

## Main results

* `Plan.TableQuery.steady` — such a query is steady.
* `Plan.TableQuery.serves` — the store serves the index that it scans.
* `Pipeline.run_process` — **preparing a query of one table keeps its rows, in their order**.
* `Sample.process_needs_secondary` — it fails with an index that the store does not have.
-/

namespace QueryPlanner

open Value (TransitiveOn)

namespace Plan

/-- A query of one leaf that neither drops duplicates nor aggregates, and counts nothing below its
sorts. -/
def IsTableQuery (leaf : Source) : Plan → Prop
  | .source l => l = leaf
  | .unary (.sort _) input => input.countsNothing ∧ input.IsTableQuery leaf
  | .unary op input => op.isLinear ∧ input.IsTableQuery leaf
  | .binary _ _ _ => False

/-- A query of one table under bindings, over rows that are as declared: values are compared
transitively, rows are typed and as wide as declared, primary keys are unique, columns are in range,
given rows come in their order, parameters are bound, and no two rows that reach a sort tie. -/
structure TableQuery (store : Tables) (S : Set Value) (b : Bindings) (leaf : Source) (p : Plan) :
    Prop where
  shape : p.IsTableQuery leaf
  trans : TransitiveOn S
  values : p.Throughout store (GivesIn store S) b
  orders : p.OrdersTruly store S
  fits : leaf.Fits store
  short : ∀ rows, leaf.run store b = .ok rows → rows.length < UInt64.size
  typed : ∀ i rows, leaf = .scan i → store.table? i = some rows → ∀ row ∈ rows,
    ∀ (c : Nat) column v, i.columns[c]? = some column → row[c]? = some v → v.fits column.type
  unique : ∀ i rows, leaf = .scan i → store.table? i = some rows → i.key.Tieless rows
  bound : ∀ name ∈ p.parameters, (b.get? name).isSome
  filters : ∀ predicate input, .unary (.filter predicate) input ∈ p.subplans →
    (∀ c ∈ predicate.columnsRead, c < input.header.width) ∧
      KeyOperand.ValuesIn b S predicate.operands
  tieless : ∀ order input, .unary (.sort order) input ∈ p.subplans →
    ∀ rows, input.run store b = .ok rows → order.Tieless rows

variable {store : Tables} {S : Set Value} {b : Bindings} {leaf : Source} {p : Plan}

theorem IsTableQuery.isLinear {op : Unary} {input : Plan}
    (h : (Plan.unary op input).IsTableQuery leaf) : op.isLinear ∧ input.IsTableQuery leaf := by
  cases op with
  | sort order => exact ⟨rfl, h.2⟩
  | _ => exact h

/-- The leaf is a part of the query and runs with its bindings. -/
theorem IsTableQuery.leaf_part {P : Plan → Bindings → Prop} : ∀ {p : Plan}, p.IsTableQuery leaf →
    p.Throughout store P b → .source leaf ∈ p.subplans ∧ P (.source leaf) b := by
  intro p
  induction p with
  | source l =>
    intro h hP
    obtain rfl := h
    exact ⟨mem_subplans_self _, hP⟩
  | unary op input ih =>
    intro h hP
    obtain ⟨hmem, hleaf⟩ := ih h.isLinear.2 hP.2
    exact ⟨by simp [subplans, hmem], hleaf⟩
  | binary op left right _ _ => intro h; exact h.elim

namespace TableQuery

/-- The rows of the leaf come in the order of its header. -/
theorem sort_leaf (h : p.TableQuery store S b leaf) : ∀ rows, leaf.run store b = .ok rows →
    leaf.header.order.sort rows = rows ∧ ∀ row ∈ rows, leaf.header.order.HasKeys S row := by
  intro rows hrun
  obtain ⟨hmem, hvalues⟩ := h.shape.leaf_part h.values
  have hleaf : (Plan.source leaf).OrdersTruly store S :=
    h.orders.mono fun q hq => by
      rw [List.mem_singleton.mp hq]
      exact hmem
  exact Source.sort_run h.trans hleaf (comparable_source h.fits hvalues) hrun

/-- The parts of a query of one table are steady. -/
theorem steady_part (h : p.TableQuery store S b leaf) : ∀ {q : Plan},
    (∀ r ∈ q.subplans, r ∈ p.subplans) → q.IsTableQuery leaf →
    q.Throughout store (GivesIn store S) b →
    q.Throughout store (fun r b => ∀ k ∈ r.ownOperands, (k.value? b).isSome) b →
    q.Steady store S b leaf := by
  intro q
  induction q with
  | source l => intro _ hq _ _; exact hq
  | unary op input ih =>
    intro hsub hq hgives hbound
    have hself := hsub _ (mem_subplans_self _)
    have hinput := ih (fun r hr => hsub r (by simp [subplans, hr])) hq.isLinear.2 hgives.2 hbound.2
    refine ⟨hinput, ?_⟩
    cases op with
    | filter predicate =>
      -- Every operand of the predicate is bound, to a value in `S`.
      obtain ⟨hcolumns, hvalues⟩ := h.filters predicate input hself
      refine ⟨hcolumns, fun k hk => ?_⟩
      obtain ⟨w, hw⟩ := Option.isSome_iff_exists.mp (hbound.1 k hk)
      exact ⟨w, hvalues k hk w hw, hw⟩
    | sort order =>
      -- Rows have the width of the header, and so have the columns of the sort.
      refine ⟨hq.1, fun rows hrows => ⟨fun row hrow => ?_, h.tieless order input hself rows hrows⟩⟩
      refine SortOrder.hasKeys_of_lt_length (fun k hk => ?_) (hgives.2.self rows hrows row hrow)
      rw [length_of_run (hinput.fits h.fits) hrows row hrow]
      exact h.orders.sorts order input hself k hk
    | _ => exact hq.isLinear.1
  | binary op left right _ _ => intro _ hq; exact hq.elim

/-- **A query of one table is steady.** -/
theorem steady (h : p.TableQuery store S b leaf) : p.Steady store S b leaf :=
  h.steady_part (fun _ hr => hr) h.shape h.values (throughout_isSome h.bound)

/-- The store serves the index that the query scans, if the candidates of the index read its table.
-/
theorem serves {s : Selector} (h : p.TableQuery store S b leaf)
    (hcatalog : ∀ primary, leaf = .scan primary → ∀ i ∈ s.candidates primary,
      store.table? i = store.table? primary) :
    ∀ primary, leaf = .scan primary → s.Serves store S primary := by
  rintro primary rfl
  obtain ⟨hmem, _⟩ := h.shape.leaf_part h.values
  refine ⟨hcatalog primary rfl, fun i hi rows hrows => ?_,
    fun rows hrows => h.unique primary rows rfl hrows⟩
  have hcolumns := Selector.columns_of_mem_candidates hi
  constructor
  · intro row hrow
    rw [hcolumns]
    exact h.fits.length_of_table rfl hrows row hrow
  · exact h.orders.stored _ primary rows hmem rfl hrows
  · intro row hrow k _ c hc v hv
    rw [hcolumns] at hc
    exact h.typed primary rows rfl hrows row hrow k.column c v hc hv

end TableQuery

end Plan

/-! ### The three steps -/

namespace Selector

/-- A plan that scans no other indexes can stand in for another one. -/
theorem IdsApart.of_scans {p q : Plan} {plans : List Plan} (h : IdsApart (p :: plans))
    (hq : ∀ i, Plan.source (.scan i) ∈ q.subplans → Plan.source (.scan i) ∈ p.subplans) :
    IdsApart (q :: plans) := by
  have hscan : ∀ {r i}, r ∈ q :: plans → Plan.source (.scan i) ∈ r.subplans →
      ∃ r' ∈ p :: plans, Plan.source (.scan i) ∈ r'.subplans := by
    intro r i hr hi
    rcases List.mem_cons.mp hr with rfl | hr
    · exact ⟨p, by simp, hq i hi⟩
    · exact ⟨r, by simp [hr], hi⟩
  intro r hr r' hr' i j hi hj hid
  obtain ⟨q₁, hq₁, hi⟩ := hscan hr hi
  obtain ⟨q₂, hq₂, hj⟩ := hscan hr' hj
  exact h q₁ hq₁ q₂ hq₂ i j hi hj hid

end Selector

namespace Pipeline

variable {store : Tables} {S : Set Value} {b : Bindings} {leaf : Source} {p q : Plan}
  {pipeline : Pipeline} {expected : Bindings} {rows : List Row}

theorem steady_correct (h : p.TableQuery store S b leaf) (heffects : pipeline.effects = .standard)
    (hq : pipeline.correct p = .ok q) (hrun : p.run store b = .ok rows) :
    q.Steady store S b leaf ∧ q.run store b = .ok rows := by
  unfold correct at hq
  split at hq
  · rw [heffects] at hq
    exact h.steady.correctOrder h.trans h.sort_leaf h.values hq hrun
  · obtain rfl := Except.ok.inj hq
    exact ⟨h.steady, hrun⟩

theorem steady_collapse (pipeline : Pipeline) (h : q.Steady store S b leaf)
    (hfits : leaf.Fits store)
    (hshort : ∀ rows, leaf.run store b = .ok rows → rows.length < UInt64.size) :
    (pipeline.collapse q).Steady store S b leaf ∧
      (pipeline.collapse q).run store b = q.run store b := by
  unfold collapse
  split
  · exact ⟨h.collapsePaging, h.run_collapsePaging_eq hfits hshort⟩
  · exact ⟨h, rfl⟩

theorem run_select {cache : CandidateCache} (hS : TransitiveOn S)
    (hselector : ∀ s ∈ pipeline.selector, s.effects = .standard ∧
      (∀ i, leaf = .scan i → s.Serves store S i) ∧
      ∃ earlier, cache = s.cacheAfter earlier ∧ Selector.IdsApart (q :: earlier.map Prod.snd))
    (hq : q.Steady store S b leaf) (hrun : q.run store b = .ok rows) :
    (pipeline.select expected q cache).1.run store b = .ok rows := by
  unfold select
  split
  · rename_i s hs
    obtain ⟨heffects, hserves, earlier, rfl, hids⟩ := hselector s hs
    split
    · rw [Selector.optimize_eq_rewrite hids]
      exact (Selector.run_rewrite_steady heffects hS (fun i hi _ => hserves i hi) hq hrun).1
    · exact hrun
  · exact hrun

/-- **Preparing a query of one table keeps its rows, in their order**, whichever steps are taken and
whatever the dialect, the catalog, the costs and the expected bindings are, and whatever was
prepared before, as long as the indexes that the catalog lists for the table read it in the store.
-/
theorem run_process {cache cache' : CandidateCache} (h : p.TableQuery store S b leaf)
    (heffects : pipeline.effects = .standard)
    (hselector : ∀ s ∈ pipeline.selector, s.effects = .standard)
    (hcatalog : ∀ s ∈ pipeline.selector, ∀ primary, leaf = .scan primary →
      ∀ i ∈ s.candidates primary, store.table? i = store.table? primary)
    (hcache : ∀ s ∈ pipeline.selector, ∃ earlier, cache = s.cacheAfter earlier ∧
      Selector.IdsApart (p :: earlier.map Prod.snd))
    (hq : pipeline.process expected p cache = .ok (q, cache')) (hrun : p.run store b = .ok rows) :
    q.run store b = .ok rows := by
  obtain ⟨corrected, hcorrected, hq⟩ := bind_eq_ok_iff.mp hq
  obtain ⟨hcorrected, hrun⟩ := steady_correct h heffects hcorrected hrun
  obtain ⟨hcollapsed, hsame⟩ := steady_collapse pipeline hcorrected h.fits h.short
  have hselected : (pipeline.select expected (pipeline.collapse corrected) cache).1 = q :=
    congrArg Prod.fst (Except.ok.inj hq)
  rw [← hselected]
  refine run_select h.trans (fun s hs => ⟨hselector s hs, h.serves (hcatalog s hs), ?_⟩) hcollapsed
    (hsame.trans hrun)
  -- The steps before scan what the query scans.
  obtain ⟨earlier, hearlier, hids⟩ := hcache s hs
  refine ⟨earlier, hearlier, hids.of_scans fun i hi => ?_⟩
  rw [hcollapsed.eq_leaf hi]
  exact (h.shape.leaf_part h.values).1

end Pipeline

/-! ### The second of the oldest users

A sort by age is below the paging, the users are selected by age, and the paging is collapsed with
numbered rows. -/

namespace Sample

/-- The users of some age or more. -/
def adults : Plan := .unary (.filter atLeast) (.source (.scan (users 1)))

/-- The same users, the oldest first. -/
def adultsByAge : Plan := .unary (.sort [.desc 1]) adults

/-- The same users with the age in the first column. -/
def agesOfAdults : Plan := .unary (.select [1, 0]) adultsByAge

/-- The second of the two oldest users, with the age first. -/
def secondOldest : Plan := .unary (.skip 1) (.unary (.take 2) agesOfAdults)

/-- All steps, for a dialect that has no paging. -/
def pipeline : Pipeline :=
  (Pipeline.ofSettings ⟨.neither, .default, true, true, true⟩).withSelector (selector 1)

/-- What the pipeline makes of it. -/
def secondOldestPrepared : Plan := .unary (.select [0, 1]) (.unary (.page 1 1)
  (.unary (.number "RowNumber") (.unary (.sort [.desc 0]) (.unary (.select [1, 0])
    (.unary (.filter atLeast)
      (.source (.range (usersByAge 1) (.test (.compare .ge (.parameter "min")) false))))))))

theorem leaf_of_mem {leaf : Source} (h : .source leaf ∈ secondOldest.subplans) :
    leaf = .scan (users 1) := by
  simpa [Plan.subplans, secondOldest, agesOfAdults, adultsByAge, adults] using h

theorem sort_of_mem {order : SortOrder} {input : Plan}
    (h : .unary (.sort order) input ∈ secondOldest.subplans) :
    order = [.desc 1] ∧ input = adults := by
  simpa [Plan.subplans, secondOldest, agesOfAdults, adultsByAge, adults] using h

theorem filter_of_mem {predicate : Expr} {input : Plan}
    (h : .unary (.filter predicate) input ∈ secondOldest.subplans) :
    predicate = atLeast ∧ input = .source (.scan (users 1)) := by
  simpa [Plan.subplans, secondOldest, agesOfAdults, adultsByAge, adults] using h

section

variable {store : Tables} (htable : store.table? (users 1) = some rows)

include htable

theorem run_adults :
    adults.run store bindings = .ok [[.int32 1, .int32 30], [.int32 3, .int32 40]] := by
  rw [adults, Plan.run, run_users htable]
  rfl

theorem run_adultsByAge :
    adultsByAge.run store bindings = .ok [[.int32 3, .int32 40], [.int32 1, .int32 30]] :=
  Plan.run_sort (run_adults htable) (SortOrder.sort_eq_of_ties (by decide))

theorem run_agesOfAdults :
    agesOfAdults.run store bindings = .ok [[.int32 40, .int32 3], [.int32 30, .int32 1]] := by
  rw [agesOfAdults, Plan.run, run_adultsByAge htable]
  rfl

theorem run_firstTwo : (Plan.unary (.take 2) agesOfAdults).run store bindings =
    .ok [[.int32 40, .int32 3], [.int32 30, .int32 1]] := by
  rw [Plan.run, run_agesOfAdults htable]
  rfl

theorem run_secondOldest : secondOldest.run store bindings = .ok [[.int32 30, .int32 1]] := by
  rw [secondOldest, Plan.run, run_firstTwo htable]
  rfl

theorem givesIn_secondOldest :
    secondOldest.Throughout store (Plan.GivesIn store data) bindings := by
  refine ⟨.of_run (run_secondOldest htable) ?_, .of_run (run_firstTwo htable) ?_,
    .of_run (run_agesOfAdults htable) ?_, .of_run (run_adultsByAge htable) ?_,
    .of_run (run_adults htable) ?_, .of_run (run_users htable _) ?_⟩ <;> simp [data, rows]

theorem ordersTruly_secondOldest : secondOldest.OrdersTruly store data := by
  constructor
  · intro order input hmem
    obtain ⟨rfl, rfl⟩ := sort_of_mem hmem
    decide
  · intro leaf hmem
    rw [leaf_of_mem hmem]
    decide
  · intro header given hmem
    cases leaf_of_mem hmem
  · intro leaf i stored hmem hi hstored
    obtain rfl := leaf_of_mem hmem
    obtain rfl := Option.some.inj hi
    obtain rfl := Option.some.inj (htable.symm.trans hstored)
    simp [data, rows]

/-- The query is one of one table in every store that has the users. -/
theorem tableQuery_secondOldest :
    secondOldest.TableQuery store data bindings (.scan (users 1)) := by
  constructor
  · exact ⟨rfl, rfl, rfl, rfl, rfl, rfl⟩
  · exact Value.transitiveOn_of_ne_float fun v hv => hv
  · exact givesIn_secondOldest htable
  · exact ordersTruly_secondOldest htable
  · refine ⟨fun _ _ h => (by cases h), fun i stored hi hstored => ?_⟩
    obtain rfl := Option.some.inj hi
    obtain rfl := Except.ok.inj ((run_users htable bindings).symm.trans hstored)
    decide
  · intro given hgiven
    obtain rfl := Except.ok.inj ((run_users htable _).symm.trans hgiven)
    decide
  · rintro i stored ⟨⟩ hstored
    obtain rfl := Option.some.inj (htable.symm.trans hstored)
    -- Each of the two columns holds integers.
    intro row hrow c column v hcolumn hv
    simp only [rows, List.mem_cons, List.not_mem_nil, or_false] at hrow
    rcases c with _ | _ | c <;> simp [users, Index.primary] at hcolumn
    all_goals
      rcases hrow with rfl | rfl | rfl <;> simp at hv <;> subst hcolumn hv <;> rfl
  · rintro i stored ⟨⟩ hstored
    obtain rfl := Option.some.inj (htable.symm.trans hstored)
    decide
  · decide
  · intro predicate input hmem
    obtain ⟨rfl, rfl⟩ := filter_of_mem hmem
    refine ⟨by decide, fun k hk w hw x hx => ?_⟩
    simp only [atLeast, Expr.operands, List.nil_append, List.mem_singleton] at hk
    subst hk hx
    cases hw
  · intro order input hmem given hgiven
    obtain ⟨rfl, rfl⟩ := sort_of_mem hmem
    obtain rfl := Except.ok.inj ((run_adults htable).symm.trans hgiven)
    decide

end

theorem process_secondOldest : ∃ cache,
    pipeline.process .empty secondOldest ((selector 1).cacheAfter []) =
      .ok (secondOldestPrepared, cache) :=
  ⟨_, rfl⟩

/-- The age sort moves above the selected columns, so that the ages can be read through their index.
-/
theorem run_process_secondOldest :
    ∃ cache, pipeline.process .empty secondOldest ((selector 1).cacheAfter []) =
        .ok (secondOldestPrepared, cache) ∧
      secondOldest.run (store 1) bindings = .ok [[.int32 30, .int32 1]] ∧
      secondOldestPrepared.run (store 1) bindings = .ok [[.int32 30, .int32 1]] := by
  have hselector : ∀ s ∈ pipeline.selector, s = selector 1 := fun s hs => (Option.some.inj hs).symm
  have hcatalog : ∀ i ∈ (selector 1).candidates (users 1),
      (store 1).table? i = (store 1).table? (users 1) := (serves_users 1).table_eq
  have hids : Selector.IdsApart [secondOldest] :=
    Selector.idsApart_of_scans fun i hi => Source.scan.inj (leaf_of_mem hi)
  have hrun := run_secondOldest (table_users 1)
  obtain ⟨cache, hq⟩ := process_secondOldest
  refine ⟨cache, hq, hrun,
    Pipeline.run_process (tableQuery_secondOldest (table_users 1)) rfl ?_ ?_ ?_ hq hrun⟩
  · intro s hs
    rw [hselector s hs]
    rfl
  · rintro s hs primary ⟨⟩
    rw [hselector s hs]
    exact hcatalog
  · intro s hs
    rw [hselector s hs]
    exact ⟨[], rfl, hids⟩

/-- The same query fails once prepared if the catalog lists an index that the store does not have.
-/
theorem process_needs_secondary :
    let store := Tables.empty.insertTable (users 1) rows
    secondOldest.TableQuery store data bindings (.scan (users 1)) ∧
      (∃ cache, pipeline.process .empty secondOldest ((selector 1).cacheAfter []) =
        .ok (secondOldestPrepared, cache)) ∧
      secondOldest.run store bindings = .ok [[.int32 30, .int32 1]] ∧
      secondOldestPrepared.run store bindings = .error (.noRows "UsersByAge") :=
  ⟨tableQuery_secondOldest rfl, process_secondOldest, run_secondOldest rfl, rfl⟩

end Sample

end QueryPlanner
