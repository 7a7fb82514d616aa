import QueryPlanner.Proofs.Access.Caching
import QueryPlanner.Proofs.Access.Replacement
import QueryPlanner.Proofs.Run.Contexts

/-!
# Index selection keeps results

Index selection replaces the filters over primary scans of a plan.  Each replacement gives the rows
of its filter, in the same order where the order can be seen, and every operator above gives the
same rows over the same inputs.  The cache of candidates makes no difference, as long as the number
of an index stands for one index only.

## Main definitions

* `Selector.rewrite` — index selection that looks candidates up afresh each time.
* `Selector.cacheAfter` — the cache after some plans were optimized.
* `Plan.reorders` — whether a sort, a union or a concatenation stands in a plan.
* `Selector.Grounded` — what is assumed of store, plan and bindings.

## Main results

* `Selector.visit_eq_rewrite` — the cache makes no difference.
* `Selector.toOption_run_rewrite` — where the order can be seen all the way down, the rows are the
  same.
* `Selector.run_optimize` — **index selection keeps the rows and the header of a plan without sorts,
  unions and concatenations**.
-/

namespace QueryPlanner

open Value (TransitiveOn)

/-- Whether a sort, a union or a concatenation stands in a plan. -/
def Plan.reorders : Plan → Bool
  | .source _ => false
  | .unary (.sort _) _ => true
  | .unary _ input => input.reorders
  | .binary .union _ _ => true
  | .binary .concat _ _ => true
  | .binary _ left right => left.reorders || right.reorders

namespace Selector

/-! ### Without a cache -/

/-- The plan with filters replaced, where the candidates of each primary index are looked up afresh.
-/
def rewrite (s : Selector) (expected : Bindings) : Plan → Bool → Plan
  | .source leaf, _ => .source leaf
  | .unary (.filter predicate) (.source (.scan primary)), isObserved =>
    let unchanged := Plan.unary (.filter predicate) (.source (.scan primary))
    if primary.isPrimary then
      (s.replaceFilter? expected (s.candidates primary) primary predicate isObserved).getD unchanged
    else unchanged
  | .unary op input, isObserved =>
    .unary op (s.rewrite expected input (s.observes isObserved (.unary op input)))
  | .binary op left right, isObserved =>
    let isObserved := s.observes isObserved (.binary op left right)
    .binary op (s.rewrite expected left isObserved) (s.rewrite expected right isObserved)

variable {s : Selector} {expected : Bindings}

/-- An operator with one input is a filter over a scan, or stays in place. -/
theorem rewrite_unary_cases (s : Selector) (expected : Bindings) (op : Unary) (input : Plan) :
    (∃ predicate primary, op = .filter predicate ∧ input = .source (.scan primary)) ∨
    ∀ isObserved, s.rewrite expected (.unary op input) isObserved =
      .unary op (s.rewrite expected input (s.observes isObserved (.unary op input))) := by
  cases op with
  | filter predicate =>
    cases input with
    | source leaf =>
      cases leaf with
      | scan primary => exact Or.inl ⟨predicate, primary, rfl, rfl⟩
      | _ => exact Or.inr fun _ => rfl
    | _ => exact Or.inr fun _ => rfl
  | _ => exact Or.inr fun _ => rfl

/-- The candidates listed under a number are those of an index of the set with that number. -/
def Lists (s : Selector) (U : Set Index) (id : Nat) (indexes : List Index) : Prop :=
  ∃ i ∈ U, i.id = id ∧ indexes = s.candidates i

/-- **The cache makes no difference**, as long as it lists the candidates of indexes that are told
apart by their numbers; and it goes on to do so. -/
theorem visit_eq_rewrite {U : Set Index} (hids : ∀ i ∈ U, ∀ j ∈ U, i.id = j.id → i = j) (p : Plan)
    (isObserved : Bool) (cache : CandidateCache) :
    (∀ i, Plan.source (.scan i) ∈ p.subplans → i ∈ U) → cache.Holds (s.Lists U) →
    (s.visit expected p isObserved cache).1 = s.rewrite expected p isObserved ∧
      (s.visit expected p isObserved cache).2.Holds (s.Lists U) := by
  -- The cache changes along the way, but holds only lists of candidates of the indexes in `U`.
  fun_induction Selector.visit s expected p isObserved cache with
  | case1 leaf _ cache => intro _ hcache; exact ⟨rfl, hcache⟩
  | case2 predicate primary isObserved cache unchanged hprimary added indexes cache' heq =>
    intro hU hcache
    have hmem : primary ∈ U := hU primary (by simp [Plan.subplans])
    have hnew : s.Lists U primary.id (s.candidates primary) := ⟨primary, hmem, rfl, rfl⟩
    obtain ⟨hlisted, hcache'⟩ := hcache.getOrInsert hnew
    rw [heq] at hlisted hcache'
    -- What is found under the number was listed for an index with that number, which is this one.
    obtain ⟨i, hi, hid, rfl⟩ := hlisted
    refine ⟨?_, hcache'⟩
    rw [hids i hi primary hmem hid]
    simp [rewrite, hprimary, unchanged]
  | case3 predicate primary isObserved cache unchanged hprimary =>
    intro _ hcache
    exact ⟨by simp [rewrite, hprimary, unchanged], hcache⟩
  | case4 op input isObserved cache hne input' cache' heq ih =>
    intro hU hcache
    obtain ⟨hplan, hcache'⟩ := ih (fun i hi => hU i (by simp [Plan.subplans, hi])) hcache
    rw [heq] at hplan hcache'
    refine ⟨?_, hcache'⟩
    rcases rewrite_unary_cases s expected op input with ⟨predicate, primary, rfl, rfl⟩ | hstep
    · exact absurd rfl (hne predicate primary rfl)
    · rw [hstep, ← hplan]
  | case5 op left right isObserved cache isObserved' left' cache' hl right' cache'' hr ihl ihr =>
    intro hU hcache
    obtain ⟨hleft, hcache'⟩ := ihl (fun i hi => hU i (by simp [Plan.subplans, hi])) hcache
    rw [hl] at hleft hcache'
    obtain ⟨hright, hcache''⟩ := ihr (fun i hi => hU i (by simp [Plan.subplans, hi])) hcache'
    rw [hr] at hright hcache''
    refine ⟨?_, hcache''⟩
    rw [rewrite, ← hleft, ← hright]

/-! ### Where the order can be seen -/

/-- Without sorts, unions and concatenations the order can be seen all the way down. -/
theorem observes_of_not_reorders (heffects : s.effects = .standard) {p : Plan}
    (h : p.reorders = false) : s.observes true p = true := by
  unfold observes
  rw [heffects]
  cases p with
  | source leaf => rfl
  | unary op input => cases op <;> simp [Plan.reorders] at h <;> rfl
  | binary op left right => cases op <;> simp [Plan.reorders] at h <;> rfl

theorem not_reorders_unary {op : Unary} {input : Plan}
    (h : (Plan.unary op input).reorders = false) : input.reorders = false := by
  cases op <;> simp_all [Plan.reorders]

theorem not_reorders_binary {op : Binary} {left right : Plan}
    (h : (Plan.binary op left right).reorders = false) :
    left.reorders = false ∧ right.reorders = false := by
  cases op <;> simp_all [Plan.reorders]

/-- Replacing filters whose order can be seen keeps the header. -/
theorem header_rewrite (heffects : s.effects = .standard) : ∀ p : Plan, p.reorders = false →
    (s.rewrite expected p true).header = p.header := by
  intro p
  induction p with
  | source leaf => intro _; rfl
  | unary op input ih =>
    intro hp
    rcases rewrite_unary_cases s expected op input with ⟨predicate, primary, rfl, rfl⟩ | hstep
    · -- A filter over a scan, replaced as a whole.
      rw [rewrite]
      split
      · cases hq : s.replaceFilter? expected (s.candidates primary) primary predicate true with
        | none => rfl
        | some q => exact header_replaceFilter? hq
      · rfl
    · -- Any other operator keeps its place, and the order of its input is still seen.
      rw [hstep, observes_of_not_reorders heffects hp, Plan.header, ih (not_reorders_unary hp),
        Plan.header]
  | binary op left right ihl ihr =>
    intro hp
    obtain ⟨hl, hr⟩ := not_reorders_binary hp
    rw [rewrite, observes_of_not_reorders heffects hp, Plan.header, ihl hl, ihr hr, Plan.header]

variable {store : Tables} {S : Set Value}

/-- The filters over scans of a plan can be evaluated on every row, with operands in a set of
values. -/
def FiltersReady (store : Store) (S : Set Value) (p : Plan) (b : Bindings) : Prop :=
  p.Throughout store (fun q b => ∀ e i, q = .unary (.filter e) (.source (.scan i)) →
    e.Ready b S i.columns.length) b

/-- **Replacing filters whose order can be seen keeps the rows**, if the store serves every primary
index that is scanned. -/
theorem toOption_run_rewrite (heffects : s.effects = .standard) (hS : TransitiveOn S) : ∀ (p : Plan)
    (b : Bindings), p.reorders = false →
    (∀ i, Plan.source (.scan i) ∈ p.subplans → i.isPrimary → s.Serves store S i) →
    FiltersReady store S p b →
    ((s.rewrite expected p true).run store b).toOption = (p.run store b).toOption := by
  intro p
  induction p with
  | source leaf => intro b _ _ _; rfl
  | unary op input ih =>
    intro b hp hserves hready
    rcases rewrite_unary_cases s expected op input with ⟨predicate, primary, rfl, rfl⟩ | hstep
    · rw [rewrite]
      -- Only a primary scan is replaced.
      split
      · rename_i hprimary
        cases hq : s.replaceFilter? expected (s.candidates primary) primary predicate true with
        | none => rfl
        | some q =>
          exact toOption_run_replaceFilter? (hserves primary (by simp [Plan.subplans]) hprimary) hS
            (hready.1 predicate primary rfl) hq
      · rfl
    · rw [hstep, observes_of_not_reorders heffects hp]
      refine Plan.toOption_run_unary_congr op (ih b (not_reorders_unary hp) ?_ hready.2)
      exact fun i hi => hserves i (by simp [Plan.subplans, hi])
  | binary op left right ihl ihr =>
    intro b hp hserves hready
    obtain ⟨hl, hr⟩ := not_reorders_binary hp
    rw [rewrite, observes_of_not_reorders heffects hp]
    -- The right input may run under other bindings than the left one, so its hypothesis is used for
    -- every binding it is run with.
    refine Plan.toOption_run_binary_congr op (ihl b hl ?_ hready.2.1) ?_ fun b' hb' => ?_
    · exact fun i hi => hserves i (by simp [Plan.subplans, hi])
    · rw [header_rewrite heffects right hr]
    · exact ihr b' hr (fun i hi => hserves i (by simp [Plan.subplans, hi])) (hready.2.2 b' hb')

/-! ### Results -/

/-- The numbers of the indexes that several plans scan tell them apart. -/
def IdsApart (plans : List Plan) : Prop :=
  ∀ q ∈ plans, ∀ q' ∈ plans, ∀ i j, Plan.source (.scan i) ∈ q.subplans →
    Plan.source (.scan j) ∈ q'.subplans → i.id = j.id → i = j

theorem idsApart_singleton {p : Plan} (h : ∀ i j, Plan.source (.scan i) ∈ p.subplans →
    Plan.source (.scan j) ∈ p.subplans → i.id = j.id → i = j) : IdsApart [p] := by
  intro q hq q' hq' i j hi hj
  rw [List.mem_singleton.mp hq] at hi
  rw [List.mem_singleton.mp hq'] at hj
  exact h i j hi hj

/-- A plan that scans only one index is told apart by its number. -/
theorem idsApart_of_scans {p : Plan} {primary : Index}
    (h : ∀ i, Plan.source (.scan i) ∈ p.subplans → i = primary) : IdsApart [p] :=
  idsApart_singleton fun i j hi hj _ => (h i hi).trans (h j hj).symm

/-- The cache after some plans were optimized, each under its own expected bindings. -/
def cacheAfter (s : Selector) (earlier : List (Bindings × Plan)) : CandidateCache :=
  earlier.foldl (fun cache run => (s.optimize run.1 run.2 cache).2) s.newCache

/-- Whatever was optimized before, the cache makes no difference to the result. -/
theorem optimize_eq_rewrite {earlier : List (Bindings × Plan)} {p : Plan}
    (hids : IdsApart (p :: earlier.map Prod.snd)) :
    (s.optimize expected p (s.cacheAfter earlier)).1 = s.rewrite expected p true := by
  -- All indexes that are scanned in this plan or in an earlier one.
  let U : Set Index := {i | ∃ q ∈ p :: earlier.map Prod.snd, Plan.source (.scan i) ∈ q.subplans}
  have hU : ∀ i ∈ U, ∀ j ∈ U, i.id = j.id → i = j := by
    rintro i ⟨q, hq, hi⟩ j ⟨q', hq', hj⟩ hid
    exact hids q hq q' hq' i j hi hj hid
  -- Earlier runs leave only lists of candidates of these indexes behind.
  have hfold : ∀ (runs : List (Bindings × Plan)) (cache : CandidateCache),
      (∀ run ∈ runs, ∀ i, Plan.source (.scan i) ∈ run.2.subplans → i ∈ U) →
      cache.Holds (s.Lists U) →
      (runs.foldl (fun cache run => (s.optimize run.1 run.2 cache).2) cache).Holds (s.Lists U) := by
    intro runs
    induction runs with
    | nil => intro cache _ hcache; exact hcache
    | cons run runs ih =>
      intro cache hruns hcache
      refine ih _ (fun r hr => hruns r (by simp [hr])) ?_
      exact (visit_eq_rewrite hU run.2 true cache (hruns run (by simp)) hcache).2
  have hcache : (s.cacheAfter earlier).Holds (s.Lists U) := by
    refine hfold earlier _ (fun run hrun i hi => ⟨run.2, ?_, hi⟩)
      (RecencyCache.holds_ofCapacity _ _)
    exact List.mem_cons_of_mem _ (List.mem_map_of_mem hrun)
  exact (visit_eq_rewrite hU p true _ (fun i hi => ⟨p, by simp, hi⟩) hcache).1

/-- What index selection takes for granted when a plan runs: the key order is transitive on the
data, the store serves every primary index that is scanned, all parameters are bound, and filters
over scans read columns that there are and compare with values of the data. -/
structure Grounded (s : Selector) (store : Tables) (S : Set Value) (p : Plan) (b : Bindings) :
    Prop where
  trans : TransitiveOn S
  serves : ∀ i, Plan.source (.scan i) ∈ p.subplans → i.isPrimary → s.Serves store S i
  bound : ∀ name ∈ p.parameters, (b.get? name).isSome
  columns : ∀ e i, Plan.unary (.filter e) (.source (.scan i)) ∈ p.subplans →
    ∀ c ∈ e.columnsRead, c < i.columns.length
  values : p.Throughout store (fun q b => ∀ e i, q = .unary (.filter e) (.source (.scan i)) →
    KeyOperand.ValuesIn b S e.operands) b

theorem Grounded.filtersReady {p : Plan} {b : Bindings} (h : s.Grounded store S p b) :
    FiltersReady store S p b := by
  refine ((Plan.throughout_isSome h.bound).and h.values).imp ?_
  rintro q hq b ⟨hsome, hin⟩ e i rfl
  refine ⟨h.columns e i hq, fun k hk => ?_⟩
  obtain ⟨w, hw⟩ := Option.isSome_iff_exists.mp (hsome k hk)
  exact ⟨w, hin e i rfl k hk w hw, hw⟩

theorem Grounded.toOption_run_rewrite {p : Plan} {b : Bindings} (h : s.Grounded store S p b)
    (heffects : s.effects = .standard) (hp : p.reorders = false) :
    ((s.rewrite expected p true).run store b).toOption = (p.run store b).toOption :=
  Selector.toOption_run_rewrite heffects h.trans p b hp h.serves h.filtersReady

/-- **Index selection keeps the rows, their order and the header of every plan without sorts, unions
and concatenations**, whatever catalog, costs, budget and expected bindings it works with, and
whatever was optimized before. -/
theorem run_optimize (settings : SelectionSettings) (catalog : Catalog) (model : CostModel)
    (earlier : List (Bindings × Plan)) (expected : Bindings) (p : Plan) (store : Tables)
    (b : Bindings) (S : Set Value) (hp : p.reorders = false)
    (hids : IdsApart (p :: earlier.map Prod.snd))
    (h : (Selector.mk settings catalog model .standard).Grounded store S p b) :
    let s := Selector.mk settings catalog model .standard
    let q := (s.optimize expected p (s.cacheAfter earlier)).1
    (∀ rows, q.run store b = .ok rows ↔ p.run store b = .ok rows) ∧ q.header = p.header := by
  intro s q
  have hq : q = s.rewrite expected p true := optimize_eq_rewrite hids
  rw [hq]
  exact ⟨eq_ok_iff_of_toOption_eq (h.toOption_run_rewrite rfl hp), header_rewrite rfl p hp⟩

end Selector

/-! ### A table of users

Users with their ages, indexed by both, under any number that is free. -/

namespace Sample

/-- Users with their ages, by number. -/
def users (id : Nat) : Index :=
  .primary id "Users" [⟨"id", .int32, false⟩, ⟨"age", .int32, false⟩] [.asc 0]

/-- The same users, by age. -/
def usersByAge (id : Nat) : Index := .secondary (id + 1) "UsersByAge" (users id) [.asc 1]

/-- Three users, of whom the second is the youngest. -/
def rows : List Row := [[.int32 1, .int32 30], [.int32 2, .int32 20], [.int32 3, .int32 40]]

/-- The three users, stored once and read through both indexes. -/
def store (id : Nat) : Tables :=
  (Tables.empty.insertTable (users id) rows).registerSecondary (usersByAge id) (users id)

/-- Reading a secondary index costs less. -/
def costModel : CostModel := fun i _ => if i.isPrimary then .ofSteps 9 9 9 else .ofSteps 1 1 1

/-- A selector that knows the index on ages and prefers it. -/
def selector (id : Nat) : Selector := ⟨.default, fun _ => [usersByAge id], costModel, .standard⟩

/-- The values that are no floating point numbers. -/
def data : Set Value := {v | ∀ x, v ≠ .float x}

theorem candidates_users (id : Nat) :
    (selector id).candidates (users id) = [users id, usersByAge id] := by
  simp [Selector.candidates, selector, users, usersByAge, Index.primary, Index.secondary]

theorem table_users (id : Nat) : (store id).table? (users id) = some rows := by
  have hne : (id == id + 1) = false := by simp
  have hprimary : (store id).primaries.lookup id = none := by
    change List.lookup id [(id + 1, id)] = none
    rw [List.lookup_cons, hne]
    rfl
  change (store id).rows.lookup (((store id).primaries.lookup id).getD id) = some rows
  rw [hprimary]
  simp [store, Tables.insertTable, Tables.registerSecondary, users, Index.primary]

theorem table_usersByAge (id : Nat) : (store id).table? (usersByAge id) = some rows := by
  simp [Tables.table?, store, Tables.insertTable, Tables.registerSecondary, users, usersByAge,
    Index.primary, Index.secondary]

/-- The rows are stored in the order of their numbers, so that reading them sorts nothing. -/
theorem run_users {store : Tables} {id : Nat} (htable : store.table? (users id) = some rows)
    (b : Bindings) : (Plan.source (.scan (users id))).run store b = .ok rows := by
  have hsorted : SortOrder.sort [.asc 0] rows = rows := List.mergeSort_of_pairwise (by decide)
  rw [Plan.run, Source.run, Tables.scan_toStore, Tables.scan, htable]
  exact congrArg Except.ok hsorted

theorem serves_users (id : Nat) : (selector id).Serves (store id) data (users id) := by
  -- Every stored row consists of two integers.
  have hrow : ∀ row ∈ rows, ∃ m n, row = [.int32 m, .int32 n] := by
    intro row hrow
    simp only [rows, List.mem_cons, List.not_mem_nil, or_false] at hrow
    rcases hrow with rfl | rfl | rfl <;> exact ⟨_, _, rfl⟩
  -- Both candidates have the columns and the table of the primary index.
  have hcandidate : ∀ i ∈ (selector id).candidates (users id), i.columns = (users id).columns ∧
      (i.key = [.asc 0] ∨ i.key = [.asc 1]) ∧ (store id).table? i = some rows := by
    intro i hi
    rw [candidates_users, List.mem_cons, List.mem_singleton] at hi
    rcases hi with rfl | rfl
    · exact ⟨rfl, Or.inl rfl, table_users id⟩
    · exact ⟨rfl, Or.inr rfl, table_usersByAge id⟩
  constructor
  · intro i hi
    rw [(hcandidate i hi).2.2, table_users]
  · intro i hi stored hstored
    rw [table_users] at hstored
    obtain rfl := Option.some.inj hstored
    obtain ⟨hcolumns, hkey, -⟩ := hcandidate i hi
    constructor
    · intro row hmem
      obtain ⟨m, n, rfl⟩ := hrow row hmem
      rw [hcolumns]
      rfl
    · intro row hmem v hv x hx
      obtain ⟨m, n, rfl⟩ := hrow row hmem
      simp [hx] at hv
    · intro row hmem k hk c hc v hv
      obtain ⟨m, n, rfl⟩ := hrow row hmem
      rw [hcolumns] at hc
      rcases hkey with hkey | hkey <;> rw [hkey, List.mem_singleton] at hk <;> subst hk <;>
        simp [users, Index.primary, SortKey.asc] at hc hv <;> subst hc hv <;> rfl
  · intro stored hstored
    rw [table_users] at hstored
    obtain rfl := Option.some.inj hstored
    exact (by decide : rows.Pairwise fun a c => SortOrder.compareRows [.asc 0] a c ≠ .eq)

/-! ### A correlated join over an index

Each of the first two users of some age is joined with the users who are not older. -/

/-- Users of some age or more. -/
def atLeast : Expr := .compare .ge (.column 1) (.parameter "min")

/-- Users of some age or less. -/
def atMost : Expr := .compare .le (.column 1) (.parameter "age")

/-- The first two users of some age or more. -/
def firstUsers : Plan := .unary (.take 2) (.unary (.filter atLeast) (.source (.scan (users 1))))

/-- The users who are not older than someone. -/
def notOlder : Plan := .unary (.filter atMost) (.source (.scan (users 1)))

/-- Each of the first users with those who are not older. -/
def plan : Plan := .binary (.apply .cross [(1, "age")]) firstUsers notOlder

/-- The age that the first users have at least. -/
def bindings : Bindings := .insert .empty "min" (.int32 25)

theorem grounded_plan : (selector 1).Grounded (store 1) data plan bindings := by
  -- The operand of either filter is bound to an integer.
  have hfilter : ∀ {name : String} {op : CompareOp} {e : Expr} {i : Index} {b : Bindings}
      {n : Int32},
      Plan.unary (.filter (.compare op (.column 1) (.parameter name))) (.source (.scan (users 1))) =
        .unary (.filter e) (.source (.scan i)) → b.get? name = some (.int32 n) →
      KeyOperand.ValuesIn b data e.operands := by
    intro name op e i b n h hget k hk w hw x hx
    cases h
    simp only [Expr.operands, List.nil_append, List.mem_singleton] at hk
    subst hk hx
    cases hget.symm.trans hw
  constructor
  · exact Value.transitiveOn_of_ne_float fun v hv => hv
  · intro i hi _
    have hi : i = users 1 := by simpa [plan, firstUsers, notOlder, Plan.subplans] using hi
    rw [hi]
    exact serves_users 1
  · decide
  · intro e i hi
    simp [plan, firstUsers, notOlder, Plan.subplans] at hi
    rcases hi with ⟨rfl, rfl⟩ | ⟨rfl, rfl⟩ <;> decide
  · have hleft : firstUsers.run (store 1) bindings =
        .ok [[.int32 1, .int32 30], [.int32 3, .int32 40]] := by
      rw [firstUsers, Plan.run, Plan.run, run_users (table_users 1)]
      rfl
    have hscan : ∀ {i : Index} {e : Expr} {j : Index},
        Plan.source (.scan i) = .unary (.filter e) (.source (.scan j)) → False :=
          fun h => by cases h
    refine ⟨?_, ⟨?_, fun e i h => hfilter h rfl, fun _ _ h => (hscan h).elim⟩, ?_⟩
    · intro e i h
      cases h
    · intro e i h
      cases h
    -- The right input runs once for each of the two rows of the left one, with its age bound.
    rintro b' ⟨rows, hrows, row, hrow, hb'⟩
    rw [hleft] at hrows
    obtain rfl := Except.ok.inj hrows
    rw [List.mem_cons, List.mem_singleton] at hrow
    refine ⟨fun e i h => ?_, fun _ _ h => (hscan h).elim⟩
    rcases hrow with rfl | rfl <;> cases hb' <;> exact hfilter h rfl

/-- Both filters are read through the index on ages and sorted back, the second with candidates from
the cache, and the result is the same. -/
theorem run_optimize_plan :
    let q := ((selector 1).optimize .empty plan ((selector 1).cacheAfter [])).1
    q.same (.binary (.apply .cross [(1, "age")])
      (.unary (.take 2) (.unary (.sort [.asc 0]) (.unary (.filter atLeast)
        (.source (.range (usersByAge 1) (.test (.compare .ge (.parameter "min")) false))))))
      (.unary (.sort [.asc 0]) (.unary (.filter atMost) (.source
        (.range (usersByAge 1) (.test (.compare .le (.parameter "age")) false)))))) = true ∧
    (∀ rows, q.run (store 1) bindings = .ok rows ↔ plan.run (store 1) bindings = .ok rows) ∧
      q.header = plan.header := by
  have hids : Selector.IdsApart [plan] := Selector.idsApart_of_scans fun i hi => by
    simpa [plan, firstUsers, notOlder, Plan.subplans] using hi
  exact ⟨by decide, Selector.run_optimize .default (fun _ => [usersByAge 1]) costModel []
    .empty plan (store 1) bindings data (by decide) hids grounded_plan⟩

end Sample

end QueryPlanner
