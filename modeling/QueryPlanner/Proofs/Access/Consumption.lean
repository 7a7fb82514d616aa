import QueryPlanner.Proofs.Access.Selection
import QueryPlanner.Proofs.Run.Sorting

/-!
# What order-sensitive operators read after index selection

Skipping, taking, paging and numbering depend on the order of their input.  Index selection restores
the order of a replaced filter only where the order of the whole plan can be seen, and below a sort,
a union or a concatenation it takes it that the order cannot be seen any more.  An order-sensitive
operator in between makes no difference to that, although it does see the order.  So the input of
such an operator is kept exactly where nothing above it sorts, unites or concatenates.

## Main definitions

* `Plan.at?`, `Plan.put` — the part of a plan at a position, and the plan with another part there.
* `Plan.reordersAbove` — a sort, a union or a concatenation stands above a position.
* `Selector.KeepsInputsAt` — order-sensitive operators at a position read the same rows as before.

## Main results

* `Selector.at?_rewrite_put` — the part at a position is rewritten by what stands above it.
* `Selector.keepsInputsAt_iff` — **inputs are kept exactly where nothing above reorders**.
* `Sample.take_below_sort_reads_other_rows` — a row taken below a sort is another one afterwards.
-/

namespace QueryPlanner

namespace Plan

/-! ### Positions -/

/-- The part of a plan at a position, given by the inputs to go down to. -/
def at? : Plan → List Nat → Option Plan
  | p, [] => some p
  | .unary _ input, 0 :: path => input.at? path
  | .binary _ left _, 0 :: path => left.at? path
  | .binary _ _ right, 1 :: path => right.at? path
  | _, _ => none

/-- A plan with another part at a position. -/
def put : Plan → List Nat → Plan → Plan
  | _, [], part => part
  | .unary op input, 0 :: path, part => .unary op (input.put path part)
  | .binary op left right, 0 :: path, part => .binary op (left.put path part) right
  | .binary op left right, 1 :: path, part => .binary op left (right.put path part)
  | p, _, _ => p

/-- Whether the outermost operator is a sort, a union or a concatenation. -/
def isReordering : Plan → Bool
  | .unary (.sort _) _ => true
  | .binary .union _ _ => true
  | .binary .concat _ _ => true
  | _ => false

/-- Whether a sort, a union or a concatenation stands above a position. -/
def reordersAbove : Plan → List Nat → Bool
  | .unary op input, 0 :: path => (unary op input).isReordering || input.reordersAbove path
  | .binary op left right, 0 :: path =>
    (binary op left right).isReordering || left.reordersAbove path
  | .binary op left right, 1 :: path =>
    (binary op left right).isReordering || right.reordersAbove path
  | _, _ => false

theorem at?_input {p : Plan} {path : List Nat} {op : Unary} {input : Plan}
    (h : p.at? path = some (.unary op input)) : p.at? (path ++ [0]) = some input := by
  fun_induction at? p path with
  | case1 p =>
    obtain rfl := Option.some.inj h
    simp [at?]
  | case2 _ input path ih => exact ih h
  | case3 _ left _ path ih => exact ih h
  | case4 _ _ right path ih => exact ih h
  | case5 p path hnil hu hl hr => cases h

/-- A leaf of a plan with another part is one of the plan or one of the part. -/
theorem mem_subplans_put {part : Plan} {leaf : Source} (p : Plan) (path : List Nat) :
    Plan.source leaf ∈ (p.put path part).subplans →
      Plan.source leaf ∈ p.subplans ∨ Plan.source leaf ∈ part.subplans := by
  fun_induction put p path part with
  | case1 p part => exact Or.inr
  | case2 part op input path ih =>
    intro h
    simp only [subplans, List.mem_cons, reduceCtorEq, false_or] at h ⊢
    exact ih h
  | case3 part op left right path ih =>
    intro h
    simp only [subplans, List.mem_cons, reduceCtorEq, false_or, List.mem_append] at h ⊢
    -- The path leads into the left input; the right one stays as it was.
    rcases h with h | h
    · exact (ih h).imp_left Or.inl
    · exact Or.inl (Or.inr h)
  | case4 part op left right path ih =>
    intro h
    simp only [subplans, List.mem_cons, reduceCtorEq, false_or, List.mem_append] at h ⊢
    rcases h with h | h
    · exact Or.inl (Or.inl h)
    · exact (ih h).imp_left Or.inr
  | case5 p path part hnil hu hl hr => exact Or.inl

/-- A plan with an operator put into it is no leaf. -/
theorem put_ne_source {op : Unary} {input : Plan} {path : List Nat} {p : Plan} {leaf : Source}
    (hpath : (p.at? path).isSome) : p.put path (.unary op input) ≠ .source leaf := by
  -- A path that is not empty leads below an operator, and that operator stays on top.
  cases path with
  | nil => simp [put]
  | cons i path =>
    cases p with
    | source leaf' => simp [at?] at hpath
    | unary op' input' =>
      rcases i with _ | i
      · simp [put]
      · simp [at?] at hpath
    | binary op' left right =>
      rcases i with _ | _ | i
      · simp [put]
      · simp [put]
      · simp [at?] at hpath

end Plan

namespace Selector

variable {s : Selector} {expected : Bindings}

/-! ### Rewriting at a position -/

theorem observes_eq (heffects : s.effects = .standard) (isObserved : Bool) (p : Plan) :
    s.observes isObserved p = (isObserved && !p.isReordering) := by
  unfold observes
  rw [heffects]
  cases p with
  | source leaf => cases isObserved <;> rfl
  | unary op input => cases op <;> cases isObserved <;> rfl
  | binary op left right => cases op <;> cases isObserved <;> rfl

/-- **The part at a position is rewritten as if its order could be seen, unless something above it
reorders.** -/
theorem at?_rewrite_put (heffects : s.effects = .standard) {op : Unary} {input : Plan} (p : Plan)
    (path : List Nat) : ∀ isObserved, (p.at? path).isSome →
      (s.rewrite expected (p.put path (.unary op input)) isObserved).at? path =
        some (s.rewrite expected (.unary op input) (isObserved && !p.reordersAbove path)) := by
  -- Induction along the path: each operator on it lets the order be seen or hides it.
  fun_induction Plan.at? p path with
  | case1 p =>
    intro isObserved _
    simp [Plan.at?, Plan.put, Plan.reordersAbove]
  | case2 op' input' path ih =>
    intro isObserved hpath
    have hsame : (Plan.unary op' (input'.put path (.unary op input))).isReordering =
        (Plan.unary op' input').isReordering := by cases op' <;> rfl
    -- A filter over a scan would be replaced as a whole, but there is no scan below this operator.
    rcases rewrite_unary_cases s expected op' (input'.put path (.unary op input)) with
      ⟨_, primary, _, hscan⟩ | hstep
    · exact absurd hscan (Plan.put_ne_source hpath)
    · rw [Plan.put, hstep, Plan.at?, ih _ hpath, observes_eq heffects, hsame, Plan.reordersAbove,
        Bool.not_or, Bool.and_assoc]
  | case3 op' left right path ih =>
    intro isObserved hpath
    have hsame : (Plan.binary op' (left.put path (.unary op input)) right).isReordering =
        (Plan.binary op' left right).isReordering := by cases op' <;> rfl
    simp only [Plan.put, rewrite, Plan.at?, ih _ hpath, observes_eq heffects, hsame,
      Plan.reordersAbove, Bool.not_or, Bool.and_assoc]
  | case4 op' left right path ih =>
    intro isObserved hpath
    have hsame : (Plan.binary op' left (right.put path (.unary op input))).isReordering =
        (Plan.binary op' left right).isReordering := by cases op' <;> rfl
    simp only [Plan.put, rewrite, Plan.at?, ih _ hpath, observes_eq heffects, hsame,
      Plan.reordersAbove, Bool.not_or, Bool.and_assoc]
  | case5 p path hnil hu hl hr =>
    intro _ hpath
    cases hpath

theorem rewrite_of_needsOrder (heffects : s.effects = .standard) {op : Unary} (hop : op.needsOrder)
    (input : Plan) (isObserved : Bool) : s.rewrite expected (.unary op input) isObserved =
      .unary op (s.rewrite expected input isObserved) := by
  have hobserves : s.observes isObserved (.unary op input) = isObserved := by
    rw [observes_eq heffects]
    cases op <;> simp [Unary.needsOrder] at hop <;> simp [Plan.isReordering]
  rcases rewrite_unary_cases s expected op input with ⟨_, _, rfl, _⟩ | hstep
  · cases hop
  · rw [hstep, hobserves]

/-- The input of an order-sensitive operator at a position is rewritten by what stands above. -/
theorem at?_rewrite_put_input (heffects : s.effects = .standard) {op : Unary} (hop : op.needsOrder)
    (input : Plan) {p : Plan} {path : List Nat} (hpath : (p.at? path).isSome) :
    (s.rewrite expected (p.put path (.unary op input)) true).at? (path ++ [0]) =
      some (s.rewrite expected input (!p.reordersAbove path)) := by
  have hpart : (s.rewrite expected (p.put path (.unary op input)) true).at? path =
      some (.unary op (s.rewrite expected input (!p.reordersAbove path))) := by
    rw [at?_rewrite_put heffects p path true hpath, rewrite_of_needsOrder heffects hop,
      Bool.true_and]
  exact Plan.at?_input hpart

end Selector

/-! ### A table where the order matters -/

namespace Sample

/-- The test that all users pass. -/
def anyAge : Expr := .compare .ge (.column 1) (.literal (.int32 10))

/-- All users, through a filter. -/
def filtered (id : Nat) : Plan := .unary (.filter anyAge) (.source (.scan (users id)))

/-- All users through the index on ages, which gives them in another order. -/
def byAge (id : Nat) : Plan :=
  .source (.range (usersByAge id) (.test (.compare .ge (.literal (.int32 10))) false))

theorem grounded_filtered (id : Nat) :
    (selector id).Grounded (store id) data (filtered id) .empty := by
  constructor
  · exact Value.transitiveOn_of_ne_float fun v hv => hv
  · intro i hi _
    have hi : i = users id := by simpa [filtered, Plan.subplans] using hi
    rw [hi]
    exact serves_users id
  · intro name hname
    cases hname
  · -- The predicate reads the second of two columns.
    intro e i hi c hc
    simp only [filtered, Plan.subplans, List.mem_cons, Plan.unary.injEq, Unary.filter.injEq,
      Plan.source.injEq, Source.scan.injEq, reduceCtorEq, List.not_mem_nil, or_false] at hi
    obtain ⟨rfl, rfl⟩ := hi
    simp only [anyAge, Expr.columnsRead, List.append_nil, List.mem_singleton] at hc
    rw [hc]
    exact Nat.lt_succ_self 1
  · -- Its only operand is a literal that is no float.
    refine ⟨fun e i h k hk w hw x hx => ?_, fun _ _ h => by cases h⟩
    cases h
    simp only [anyAge, Expr.operands, List.nil_append, List.mem_singleton] at hk
    subst hk hx
    cases hw

/-- The path through the index on ages. -/
def agePath (id : Nat) : AccessPath :=
  ⟨usersByAge id, .test (.compare .ge (.literal (.int32 10))) false, [], .ofSteps 1 1 1⟩

theorem choose?_anyAge (id : Nat) :
    (selector id).choose? .empty [users id, usersByAge id] (users id)
    anyAge = some (.single (agePath id)) := rfl

/-- The filter is read through the index on ages where the order is taken not to be seen. -/
theorem rewrite_filtered (id : Nat) :
    (selector id).rewrite .empty (filtered id) false = byAge id := by
  -- The index on ages costs less than the scan, and the order is not asked for.
  have hcost : (AccessChoice.single (agePath id)).total.before
      ((selector id).costModel (users id) .full).withFilter.total = true := by
    have hclosed :
        (Cost.ofSteps 1 1 1).total.before (Cost.ofSteps 9 9 9).withFilter.total = true := by
      decide
    exact hclosed
  have hreplace : (selector id).replaceFilter? .empty ((selector id).candidates (users id))
      (users id) anyAge false = some (byAge id) := by
    rw [candidates_users, Selector.replaceFilter?, choose?_anyAge]
    simp only [Option.bind_eq_bind, Option.bind_some, hcost, if_true, Bool.false_and,
      Bool.false_eq_true, if_false]
    rfl
  rw [filtered, Selector.rewrite, hreplace]
  rfl

theorem run_filtered (id : Nat) : (filtered id).run (store id) .empty = .ok rows := by
  rw [filtered, Plan.run, run_users (table_users id)]
  rfl

theorem run_byAge (id : Nat) : (byAge id).run (store id) .empty =
    .ok [[.int32 2, .int32 20], [.int32 1, .int32 30], [.int32 3, .int32 40]] := by
  have hscan : (store id).toStore.scan (usersByAge id) = .ok (SortOrder.sort [.asc 1] rows) := by
    rw [Tables.scan_toStore, Tables.scan, table_usersByAge]
    rfl
  have hsorted : SortOrder.sort [.asc 1] rows =
      [[.int32 2, .int32 20], [.int32 1, .int32 30], [.int32 3, .int32 40]] :=
    SortOrder.sort_eq_of_ties (by decide)
  -- The ages asked for form one interval, without an end.
  have hset : KeyCondition.keys .int32 .empty (.test (.compare .ge (.literal (.int32 10))) false) =
      ⟨[⟨.exactly (.int32 10), .top⟩]⟩ :=
    IntervalSet.ofIntervals_of_pairwise (by decide) (by decide)
  have hkeys : (SortOrder.sort [.asc 1] rows).filter (fun row => row[1]?.any
      (KeyCondition.keys .int32 .empty
        (.test (.compare .ge (.literal (.int32 10))) false)).contains) =
      [[.int32 2, .int32 20], [.int32 1, .int32 30], [.int32 3, .int32 40]] := by
    rw [hsorted, hset]
    rfl
  have hkey : (usersByAge id).leadingKey? = some (.asc 1) := rfl
  have htype : (usersByAge id).leadingType = .ok .int32 := rfl
  rw [byAge, Plan.run, Source.run, htype, ok_bind, Store.scanKeys, hkey]
  simp only [hscan, ok_bind, pure_eq_ok]
  exact congrArg _ hkeys

theorem run_byAge_ne (id : Nat) :
    ¬ ∀ out, (byAge id).run (store id) .empty = .ok out ↔
      (filtered id).run (store id) .empty = .ok out := by
  intro h
  have hrows := (h rows).mpr (run_filtered id)
  rw [run_byAge] at hrows
  exact absurd (Except.ok.inj hrows) (by decide)

end Sample

/-! ### Inputs of order-sensitive operators -/

/-- Some number is greater than those of all indexes that are scanned. -/
theorem exists_id_lt (plans : List Plan) :
    ∃ id, ∀ i, Plan.source (.scan i) ∈ plans → i.id < id := by
  induction plans with
  | nil => exact ⟨0, nofun⟩
  | cons p plans ih =>
    obtain ⟨id, hid⟩ := ih
    have hhead : ∃ id', ∀ i, Plan.source (.scan i) = p → i.id < id' := by
      -- A plan that scans an index asks for a number above its own; any other asks for nothing.
      by_cases hp : ∃ i, Plan.source (.scan i) = p
      · obtain ⟨i, rfl⟩ := hp
        refine ⟨i.id + 1, fun j hj => ?_⟩
        cases hj
        exact Nat.lt_succ_self _
      · exact ⟨0, fun i hi => absurd ⟨i, hi⟩ hp⟩
    obtain ⟨id', hid'⟩ := hhead
    refine ⟨max id id', fun i hi => ?_⟩
    rcases List.mem_cons.mp hi with hi | hi
    · exact lt_of_lt_of_le (hid' i hi) (Nat.le_max_right _ _)
    · exact lt_of_lt_of_le (hid i hi) (Nat.le_max_left _ _)

namespace Selector

/-- Whatever order-sensitive operator stands at a position of a plan, over whatever input without
sorts, unions and concatenations: after index selection it reads the same rows in the same order,
for every catalog, cost model, budget and history of the cache, and every store and bindings that
the input may run with. -/
def KeepsInputsAt (p : Plan) (path : List Nat) : Prop :=
  ∀ (settings : SelectionSettings) (catalog : Catalog) (model : CostModel)
    (earlier : List (Bindings × Plan)) (expected : Bindings) (op : Unary) (input : Plan)
    (store : Tables) (b : Bindings) (S : Set Value),
    op.needsOrder → input.reorders = false →
    let s := Selector.mk settings catalog model .standard
    let whole := p.put path (.unary op input)
    IdsApart (whole :: earlier.map Prod.snd) → s.Grounded store S input b →
    ∃ q, (s.optimize expected whole (s.cacheAfter earlier)).1.at? (path ++ [0]) = some q ∧
      ∀ rows, q.run store b = .ok rows ↔ input.run store b = .ok rows

/-- **An order-sensitive operator reads the same rows after index selection exactly if no sort,
union or concatenation stands above it.** -/
theorem keepsInputsAt_iff (p : Plan) (path : List Nat) (hpath : (p.at? path).isSome)
    (hids : IdsApart [p]) : KeepsInputsAt p path ↔ p.reordersAbove path = false := by
  constructor
  · intro hkeeps
    by_contra habove
    rw [Bool.not_eq_false] at habove
    -- A table under a number that the plan does not use, read through its cheaper secondary index.
    obtain ⟨id, hid⟩ := exists_id_lt p.subplans
    let part : Plan := .unary (.take 1) (Sample.filtered id)
    have hscan : ∀ i, Plan.source (.scan i) ∈ (p.put path part).subplans →
        Plan.source (.scan i) ∈ p.subplans ∨ i = Sample.users id := by
      intro i hi
      refine (Plan.mem_subplans_put p path hi).imp_right fun hi => ?_
      simpa [part, Sample.filtered, Plan.subplans] using hi
    have hapart : IdsApart [p.put path part] := by
      refine idsApart_singleton fun i j hi hj hij => ?_
      rcases hscan i hi with hi | rfl <;> rcases hscan j hj with hj | rfl
      · exact hids p (by simp) p (by simp) i j hi hj hij
      · exact absurd hij (Nat.ne_of_lt (hid i hi))
      · exact absurd hij.symm (Nat.ne_of_lt (hid j hj))
      · rfl
    obtain ⟨q, hq, hrows⟩ := hkeeps .default (fun _ => [Sample.usersByAge id]) Sample.costModel []
      .empty (.take 1) (Sample.filtered id) (Sample.store id) .empty Sample.data rfl rfl hapart
      (Sample.grounded_filtered id)
    rw [optimize_eq_rewrite hapart, at?_rewrite_put_input rfl rfl _ hpath, habove] at hq
    have hq : q = Sample.byAge id := by
      rw [← Option.some.inj hq]
      exact Sample.rewrite_filtered id
    rw [hq] at hrows
    exact Sample.run_byAge_ne id hrows
  · -- The input is rewritten as a plan of its own would be, and that keeps its rows.
    intro habove settings catalog model earlier expected op input store b S hop hinput
      s whole hids' h
    refine ⟨s.rewrite expected input true, ?_,
      eq_ok_iff_of_toOption_eq (h.toOption_run_rewrite rfl hinput)⟩
    rw [optimize_eq_rewrite hids', at?_rewrite_put_input rfl hop input hpath, habove]
    rfl

/-- Below a skip and an outer join the input is kept, below a sort it is not. -/
theorem keepsInputsAt_iff_join :
    KeepsInputsAt (.unary (.skip 1) (.binary (.join .leftOuter [(0, 0)])
      (.source (.scan (Sample.users 1))) (.source (.scan (Sample.users 1))))) [0, 1] ∧
    ¬ KeepsInputsAt (.unary (.sort [.desc 0]) (.binary (.join .leftOuter [(0, 0)])
      (.source (.scan (Sample.users 1))) (.source (.scan (Sample.users 1))))) [0, 1] := by
  have hids : ∀ op, IdsApart [.unary op (.binary (.join .leftOuter [(0, 0)])
      (.source (.scan (Sample.users 1))) (.source (.scan (Sample.users 1))))] :=
    fun op => idsApart_of_scans fun i hi => by simpa [Plan.subplans] using hi
  refine ⟨(keepsInputsAt_iff _ _ (by rfl) (hids _)).mpr (by rfl), fun h => ?_⟩
  have hfalse := (keepsInputsAt_iff _ _ (by rfl) (hids _)).mp h
  exact absurd hfalse (by decide)

end Selector

namespace Sample

/-- **The row taken below a sort is another one after index selection**: the input of the operator
that takes it comes by age afterwards and not by number. -/
theorem take_below_sort_reads_other_rows :
    let whole : Plan := .unary (.sort [.asc 0]) (.unary (.take 1) (filtered 1))
    let q := ((selector 1).optimize .empty whole ((selector 1).cacheAfter [])).1
    whole.run (store 1) .empty = .ok [[.int32 1, .int32 30]] ∧
      q.run (store 1) .empty = .ok [[.int32 2, .int32 20]] ∧
      whole.at? [0, 0] = some (filtered 1) ∧ q.at? [0, 0] = some (byAge 1) := by
  intro whole q
  have hids : Selector.IdsApart [whole] := Selector.idsApart_of_scans fun i hi => by
    simpa [whole, filtered, Plan.subplans] using hi
  -- Below the sort the filter is read by age, although the rows are taken before they are sorted.
  have hq : q = .unary (.sort [.asc 0]) (.unary (.take 1) (byAge 1)) := by
    have hrewrite : q = (selector 1).rewrite .empty whole true := Selector.optimize_eq_rewrite hids
    rw [hrewrite, ← rewrite_filtered 1]
    rfl
  refine ⟨?_, ?_, by rfl, by rw [hq]; rfl⟩
  · refine Plan.run_sort ?_ (List.mergeSort_singleton _)
    rw [Plan.run, run_filtered]
    rfl
  · rw [hq]
    refine Plan.run_sort ?_ (List.mergeSort_singleton _)
    rw [Plan.run, run_byAge]
    rfl

end Sample

end QueryPlanner
