import QueryPlanner.Proofs.Access.Selection

/-!
# Filters with unbound parameters after index selection

A filter fails at an unbound parameter only when it comes to it, on a row and past the parts of the
predicate that decide the row before.  What takes its place may come to it at other times.  A seek
looks its key up before it reads any row, so it fails over an empty table; a path never tries the
rows that its condition leaves out, so it does not fail on them; and the clauses of a predicate are
tried one after the other.  The rows are never others, but an unbound parameter does not always fail
the way the filter would.

## Main definitions

* `Plan.GivesOrFails` — a plan gives what another gives, or fails at an unbound parameter.
* `Plan.KeepsOutcome` — a plan gives what another gives, and fails at an unbound parameter where
  that does.

## Main results

* `Plan.keepsOutcome_iff` — when one plan keeps the outcome of another.
* `Selector.keepsOutcome_optimize_iff` — **index selection keeps the outcome of a filter exactly if
  its paths come to an answer just when the filter does**.
* `Sample.outcome_of_filter_not_kept` — a seek that fails over no rows, and one that misses a
  failing row.
-/

namespace QueryPlanner

open Value (TransitiveOn)

namespace Plan

variable {store : Store} {b : Bindings} {p q : Plan}

theorem FailsUnbound.ne_ok (h : p.FailsUnbound store b) (rows : List Row) :
    p.run store b ≠ .ok rows := by
  obtain ⟨name, hname⟩ := h
  rw [hname]
  simp

/-- A plan gives the rows that another gives, or fails at an unbound parameter. -/
def GivesOrFails (store : Store) (b : Bindings) (p q : Plan) : Prop :=
  ∀ rows, p.run store b = .ok rows → q.run store b = .ok rows ∨ q.FailsUnbound store b

/-- A plan gives the rows that another gives, and fails at an unbound parameter where that does. -/
structure KeepsOutcome (store : Store) (b : Bindings) (p q : Plan) : Prop where
  rows : ∀ rows, p.run store b = .ok rows → q.run store b = .ok rows
  fails : p.FailsUnbound store b → q.FailsUnbound store b

/-- Two plans that give the same rows if both give any, each under its own condition, and that fail
at an unbound parameter otherwise: one keeps the outcome of the other exactly if the conditions
agree. -/
theorem keepsOutcome_iff {met met' : Prop} {out : List Row} (hp : met → p.run store b = .ok out)
    (hp' : ¬ met → p.FailsUnbound store b)
    (hq : met' → ∃ out', q.run store b = .ok out' ∧ (met → out' = out))
    (hq' : ¬ met' → q.FailsUnbound store b) :
    p.GivesOrFails store b q ∧ q.GivesOrFails store b p ∧
      (p.KeepsOutcome store b q ↔ (met ↔ met')) := by
  by_cases hmet : met
  · have hrun := hp hmet
    by_cases hmet' : met'
    · -- Both give rows, and then the same ones.
      obtain ⟨out', hrun', heq⟩ := hq hmet'
      obtain rfl := heq hmet
      have hsame : q.run store b = p.run store b := hrun'.trans hrun.symm
      refine ⟨fun rows h => Or.inl (hsame.trans h), fun rows h => Or.inl (hsame.symm.trans h), ?_⟩
      refine iff_of_true ⟨fun rows h => hsame.trans h, fun h => ?_⟩ (iff_of_true hmet hmet')
      exact absurd hrun (h.ne_ok out')
    · have hfails := hq' hmet'
      refine ⟨fun _ _ => Or.inr hfails, fun rows h => absurd h (hfails.ne_ok rows), ?_⟩
      refine iff_of_false (fun hkept => ?_) fun hiff => hmet' (hiff.mp hmet)
      exact hfails.ne_ok out (hkept.rows out hrun)
  · have hfails := hp' hmet
    refine ⟨fun rows h => absurd h (hfails.ne_ok rows), fun _ _ => Or.inr hfails, ?_⟩
    by_cases hmet' : met'
    · obtain ⟨out', hrun', -⟩ := hq hmet'
      refine iff_of_false (fun hkept => ?_) fun hiff => hmet (hiff.mpr hmet')
      exact (hkept.fails hfails).ne_ok out' hrun'
    · refine iff_of_true ⟨fun rows h => ?_, fun _ => hq' hmet'⟩ (iff_of_false hmet hmet')
      exact absurd h (hfails.ne_ok rows)

end Plan

namespace Selector

variable {s : Selector} {store : Tables} {S : Set Value} {primary : Index} {b : Bindings}
  {predicate : Expr} {expected : Bindings}

/-- A filter over a primary scan whose predicate has no answer on some row fails at an unbound
parameter. -/
theorem Serves.fails_filter (h : s.Serves store S primary) {rows : List Row}
    (hrows : store.table? primary = some rows) (hsuits : predicate.Suits b S primary.columns.length)
    (hundecided : ¬ ∀ row ∈ rows, predicate.Decided row b) :
    (Plan.unary (.filter predicate) (.source (.scan primary))).FailsUnbound store b := by
  have hsorted : ¬ ∀ row ∈ primary.key.sort rows, ∃ x, predicate.holds row b = .ok x :=
    fun hall => hundecided fun row hrow => hall row (SortOrder.mem_sort.mpr hrow)
  obtain ⟨row, hrow, f, hf, hkeep⟩ := exists_error_of_keepRows hsorted
  have heval : predicate.eval row b = .error f := by
    rcases bind_eq_error_iff.mp hf with heval | ⟨v, _, hv⟩
    · exact heval
    · cases hv
  have hstores := h.stores primary (s.mem_candidates_self primary) rows hrows
  have hwidth := hstores.width row (SortOrder.mem_sort.mp hrow)
  obtain ⟨name, rfl⟩ := Expr.exists_unbound_of_eval (hwidth ▸ hsuits.columns) heval
  exact ⟨name, by rw [run_filter_scan hrows, hkeep]⟩

/-- A replacement whose order can be seen keeps the outcome of the filter exactly if its paths come
to an answer just when the predicate has one on every row. -/
theorem Serves.keepsOutcome_iff_answers (h : s.Serves store S primary) (hS : TransitiveOn S)
    {rows : List Row} (hrows : store.table? primary = some rows)
    (hsuits : predicate.Suits b S primary.columns.length) {choice : AccessChoice}
    (hchoice : s.choose? expected (s.candidates primary) primary predicate = some choice) :
    let p := Plan.unary (.filter predicate) (.source (.scan primary))
    let q := choice.replacement primary true
    p.GivesOrFails store b q ∧ q.GivesOrFails store b p ∧ (p.KeepsOutcome store b q ↔
      ((∀ row ∈ rows, predicate.Decided row b) ↔
        choice.Answers b rows predicate s.settings.clauseBudget)) := by
  obtain ⟨hgives, hfails⟩ := h.run_replacement hS hrows hsuits hchoice
  refine Plan.keepsOutcome_iff (run_filter_of_decided hrows) (h.fails_filter hrows hsuits) ?_ hfails
  intro hanswers
  obtain ⟨test, htest, hrun⟩ := hgives hanswers
  refine ⟨_, hrun, fun hdecided => List.filter_congr fun row hrow => ?_⟩
  exact htest row (hdecided row (SortOrder.mem_sort.mp hrow))

/-- Index selection puts the plan of a choice in place of a filter, if one costs less. -/
theorem optimize_filter {earlier : List (Bindings × Plan)} (hprimary : primary.isPrimary)
    (hids : IdsApart
      (Plan.unary (.filter predicate) (.source (.scan primary)) :: earlier.map Prod.snd)) :
    (s.optimize expected (.unary (.filter predicate) (.source (.scan primary)))
        (s.cacheAfter earlier)).1 =
      ((s.chosen? expected (s.candidates primary) primary predicate).map
        (AccessChoice.replacement primary true)).getD
          (.unary (.filter predicate) (.source (.scan primary))) := by
  rw [optimize_eq_rewrite hids, rewrite, if_pos hprimary, replaceFilter?_eq]

/-- **Whatever parameters are unbound, a filter over a primary scan does not give other rows after
index selection.  Its outcome is kept exactly if the paths chosen come to an answer just when the
predicate has one on every row of the table.** -/
theorem keepsOutcome_optimize_iff (s : Selector) (earlier : List (Bindings × Plan))
    (expected : Bindings) (predicate : Expr) (primary : Index) (store : Tables) (b : Bindings)
    (S : Set Value) (hprimary : primary.isPrimary)
    (hids : IdsApart
      (Plan.unary (.filter predicate) (.source (.scan primary)) :: earlier.map Prod.snd))
    (hS : TransitiveOn S) (hserves : s.Serves store S primary)
    (hsuits : predicate.Suits b S primary.columns.length) :
    let p := Plan.unary (.filter predicate) (.source (.scan primary))
    let q := (s.optimize expected p (s.cacheAfter earlier)).1
    p.GivesOrFails store b q ∧ q.GivesOrFails store b p ∧ (p.KeepsOutcome store b q ↔
      ∀ rows ∈ store.table? primary,
        ∀ choice ∈ s.chosen? expected (s.candidates primary) primary predicate,
          ((∀ row ∈ rows, predicate.Decided row b) ↔
            choice.Answers b rows predicate s.settings.clauseBudget)) := by
  intro p q
  have hq : q = _ := optimize_filter hprimary hids
  cases hchosen : s.chosen? expected (s.candidates primary) primary predicate with
  | none =>
    have hsame : q = p := by rw [hq, hchosen]; rfl
    rw [hsame]
    refine ⟨fun _ => Or.inl, fun _ => Or.inl, ?_⟩
    exact iff_of_true ⟨fun _ => id, id⟩ fun _ _ _ hchoice => by cases hchoice
  | some choice =>
    have hchoice := (Option.filter_eq_some_iff.mp hchosen).1
    rw [hchosen, Option.map_some, Option.getD_some] at hq
    cases hrows : store.table? primary with
    | none =>
      -- Without a table neither gives rows, and the filter does not fail at a parameter.
      have hp : p.run store b = .error (.noRows primary.name) := by
        rw [Plan.run, Plan.run, Source.run, Tables.scan_toStore, Tables.scan, hrows]
        rfl
      have hqNone : (q.run store b).toOption = none := by
        rw [hq, hserves.toOption_run_replacement_of_no_table hrows hchoice]
      have hp' : ∀ rows, p.run store b ≠ .ok rows := fun rows => by simp [hp]
      have hq' : ∀ rows, q.run store b ≠ .ok rows :=
        fun rows h => by simp [h, Except.toOption] at hqNone
      refine ⟨fun rows h => absurd h (hp' rows), fun rows h => absurd h (hq' rows),
        iff_of_true ?_ ?_⟩
      · refine ⟨fun rows h => absurd h (hp' rows), ?_⟩
        rintro ⟨name, hname⟩
        rw [hp] at hname
        cases hname
      · intro rows h
        cases h
    | some rows =>
      have hkept := hserves.keepsOutcome_iff_answers hS hrows hsuits hchoice
      rw [hq]
      simpa only [Option.mem_def, Option.some.injEq, forall_eq'] using hkept

end Selector

/-! ### Seeks and unbound parameters -/

namespace Sample

/-- The users of an age or more, if the age is not bound: the path through the index on ages reads
all of them and fails like the filter. -/
theorem keepsOutcome_optimize_iff_atLeast :
    let p := Plan.unary (.filter atLeast) (.source (.scan (users 1)))
    let q := ((selector 1).optimize .empty p ((selector 1).cacheAfter [])).1
    q.same (.unary (.sort [.asc 0]) (.unary (.filter atLeast) (.source (.range (usersByAge 1)
      (.test (.compare .ge (.parameter "min")) false))))) = true ∧
    p.run (store 1) .empty = .error (.unboundParameter "min") ∧
    q.GivesOrFails (store 1) .empty p ∧ (p.KeepsOutcome (store 1) .empty q ↔
      ∀ rows ∈ (store 1).table? (users 1),
        ∀ choice ∈
            (selector 1).chosen? .empty ((selector 1).candidates (users 1)) (users 1) atLeast,
          ((∀ row ∈ rows, atLeast.Decided row .empty) ↔
            choice.Answers .empty rows atLeast 100)) := by
  intro p q
  have hids : Selector.IdsApart [p] := Selector.idsApart_of_scans fun i hi => by
    simpa [p, Plan.subplans] using hi
  -- The only operand is an unbound parameter, so it has no value that could be a float.
  have hsuits : atLeast.Suits .empty data (users 1).columns.length := by
    refine ⟨by decide, fun k hk w hw => ?_⟩
    have hk : k = .parameter "min" := by simpa [atLeast, Expr.operands] using hk
    rw [hk] at hw
    cases hw
  obtain ⟨-, hgives, hkeeps⟩ :=
    Selector.keepsOutcome_optimize_iff (selector 1) [] .empty atLeast (users 1) (store 1) .empty
      data rfl hids (Value.transitiveOn_of_ne_float fun v hv => hv) (serves_users 1) hsuits
  refine ⟨by decide, ?_, hgives, hkeeps⟩
  rw [Plan.run, run_users (table_users 1)]
  rfl

/-- The built-in costs, and no secondary indexes. -/
def plain : Selector := .ofSettings .default fun _ => []

/-- A seek by a number of a user, with tests to follow. -/
def seekPath (k : KeyOperand) (expected : Bindings) (residual : List Expr) : AccessPath :=
  let condition := KeyCondition.test (.compare .eq k) false
  ⟨users 1, condition, residual,
    (plain.costModel (users 1) (condition.keys .int32 expected)).withFilter⟩

theorem optimize_seek {predicate : Expr} (k : KeyOperand) (expected : Bindings)
    (residual : List Expr)
    (hchoice : plain.choose? expected [users 1] (users 1) predicate =
      some (.single (seekPath k expected residual)))
    (hcost : (seekPath k expected residual).cost.total.before
      (plain.costModel (users 1) .full).withFilter.total = true) :
    (plain.optimize expected (.unary (.filter predicate) (.source (.scan (users 1))))
      (plain.cacheAfter [])).1 = (seekPath k expected residual).toPlan := by
  have hids : Selector.IdsApart [Plan.unary (.filter predicate) (.source (.scan (users 1)))] :=
    Selector.idsApart_of_scans fun i hi => by simpa [Plan.subplans] using hi
  have hchosen : plain.chosen? expected (plain.candidates (users 1)) (users 1) predicate =
      some (.single (seekPath k expected residual)) :=
    Option.filter_eq_some_iff.mpr ⟨hchoice, hcost⟩
  -- The path goes through the primary index, so nothing has to be sorted back.
  rw [Selector.optimize_filter rfl hids, hchosen]
  rfl

/-- The user with some number. -/
def withId : Expr := .compare .eq (.column 0) (.parameter "id")

/-- The user with the number nine, who is not there. -/
def isNinth : Expr := .compare .eq (.column 0) (.literal (.int32 9))

/-- Over no users at all, the filter by an unbound number gives no rows, but the seek fails.  Over
three users, the filter by an unbound age fails, but the seek of a user who is not there gives no
rows. -/
theorem outcome_of_filter_not_kept :
    let noUsers := Tables.empty.insertTable (users 1) []
    let p := Plan.unary (.filter withId) (.source (.scan (users 1)))
    let q := (plain.optimize (.insert .empty "id" (.int32 5)) p (plain.cacheAfter [])).1
    let p' := Plan.unary (.filter (.and atLeast isNinth)) (.source (.scan (users 1)))
    let q' := (plain.optimize bindings p' (plain.cacheAfter [])).1
    (p.run noUsers .empty = .ok [] ∧ q.run noUsers .empty = .error (.unboundParameter "id")) ∧
    p'.run (store 1) .empty = .error (.unboundParameter "min") ∧
      q'.run (store 1) .empty = .ok [] := by
  intro noUsers p q p' q'
  -- The first seek is for a parameter, which is resolved even if there are no rows.
  have hq : q = .unary (.filter withId) (.source (.seek (users 1) (.parameter "id"))) :=
    optimize_seek (.parameter "id") (.insert .empty "id" (.int32 5)) [withId] rfl
      (by decide +kernel)
  -- The second seek is for a number that no row has, so the unbound test is never made.
  have hq' : q' = .unary (.filter atLeast) (.source (.seek (users 1) (.literal (.int32 9)))) :=
    optimize_seek (.literal (.int32 9)) bindings [atLeast] rfl (by decide +kernel)
  have hscan : (store 1).toStore.scan (users 1) = .ok rows := run_users (table_users 1) .empty
  have hnone : noUsers.toStore.scan (users 1) = .ok [] := congrArg Except.ok List.mergeSort_nil
  rw [hq, hq']
  refine ⟨⟨?_, rfl⟩, ?_, ?_⟩
  · rw [Plan.run, Plan.run, Source.run, hnone]
    rfl
  · rw [Plan.run, run_users (table_users 1)]
    rfl
  · have hset : IntervalSet.points [.int32 9] = ⟨[.point (.int32 9)]⟩ :=
      IntervalSet.ofIntervals_of_pairwise (by decide) (by decide)
    have hkeys :
        rows.filter (fun row => row[0]?.any (IntervalSet.points [.int32 9]).contains) = [] := by
      rw [hset]
      rfl
    have hseek : (store 1).toStore.scanKeys (users 1) (.points [.int32 9]) = .ok [] := by
      rw [Store.scanKeys, hscan]
      exact congrArg Except.ok hkeys
    exact congrArg (· >>= fun rows => Unary.run .empty rows (.filter atLeast)) hseek

end Sample

end QueryPlanner
