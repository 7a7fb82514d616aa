import QueryPlanner.Proofs.Access.Consumption
import QueryPlanner.Proofs.Expr.NormalForm

/-!
# Filters whose order cannot be seen

Right below a sort, a union or a concatenation index selection does not restore the order of a
replaced filter.  The rows are then read through any index, or through one for each clause of the
predicate, where a row that satisfies several clauses is read several times and kept once.  They are
the rows of the filter in another order.  The plan in place of the filter mentions the same
parameters: a conjunct that has one is never settled by the keys alone, and every leaf of the
predicate occurs in some clause.

## Main results

* `AccessPath.Through.mem_parameters`, `Selector.mem_parameters_choice` — the parameters of a path
  and of a choice are those of the predicate.
* `Selector.exists_run_rewrite_filter` — a filter whose order cannot be seen gives its rows in some
  order.
* `Selector.perm_below_reordering` — **a filter right below a sort, a union or a concatenation gives
  its rows, each as often as before**.
-/

namespace QueryPlanner

open Value (TransitiveOn)

/-! ### Parameters -/

theorem KeyOperand.mem_filterMap_name? {ks : List KeyOperand} {name : String} :
    name ∈ ks.filterMap name? ↔ .parameter name ∈ ks := by
  rw [List.mem_filterMap]
  constructor
  · rintro ⟨k, hk, hname⟩
    cases k with
    | literal v => cases hname
    | parameter n =>
      obtain rfl := Option.some.inj hname
      exact hk
  · exact fun h => ⟨_, h, rfl⟩

theorem Expr.mem_operands_iff_conjuncts {k : KeyOperand} (e : Expr) :
    k ∈ e.operands ↔ ∃ c ∈ e.conjuncts, k ∈ c.operands := by
  fun_induction conjuncts e with
  | case1 l r ihl ihr => simp only [operands, List.mem_append, ihl, ihr, or_and_right, exists_or]
  | case2 e _ => simp

theorem Expr.mem_operands_conjunction {k : KeyOperand} {es : List Expr} {e : Expr}
    (h : conjunction es = some e) : k ∈ e.operands ↔ ∃ c ∈ es, k ∈ c.operands := by
  -- The operands of what was joined so far come first.
  have hfold : ∀ (es : List Expr) (e : Expr), k ∈ (es.foldl .and e).operands ↔
      k ∈ e.operands ∨ ∃ c ∈ es, k ∈ c.operands := by
    intro es
    induction es with
    | nil => simp
    | cons c es ih =>
      intro e
      rw [List.foldl_cons, ih, operands, List.mem_append, or_assoc]
      simp
  cases es with
  | nil => cases h
  | cons c es =>
    obtain rfl := Option.some.inj h
    rw [hfold]
    simp

namespace Dnf

/-- The operands of a predicate are those of its clauses. -/
theorem mem_operands_iff_expand {budget : Nat} {negated : Bool} {e : Expr}
    {clauses : List (List Expr)} (h : expand budget negated e = .ok clauses) {k : KeyOperand} :
    k ∈ e.operands ↔ ∃ clause ∈ clauses, ∃ part ∈ clause, k ∈ part.operands := by
  constructor
  · intro hk
    obtain ⟨leaf, hleaf, hk⟩ := e.mem_operands_iff_leaves.mp hk
    have hof := clausesOf_expand budget negated e clauses h
    obtain ⟨clause, hclause, part, hpart, heq⟩ := hof.occurs leaf hleaf
    refine ⟨clause, hclause, part, hpart, ?_⟩
    rcases heq with rfl | rfl <;> exact hk
  · rintro ⟨clause, hclause, part, hpart, hk⟩
    have hreads := readsWithin_of_mem_expand budget negated e clauses h clause hclause part hpart
    exact hreads.operands k hk

end Dnf

namespace AccessPath

variable {conjuncts : List Expr} {key : SortKey} {ty : ColumnType} {p : AccessPath} {name : String}

theorem mem_parameters_toPlan : name ∈ p.toPlan.parameters ↔
    .parameter name ∈ p.source.operands ∨ ∃ e ∈ p.residual, .parameter name ∈ e.operands := by
  unfold toPlan
  cases hc : Expr.conjunction p.residual with
  | some predicate =>
    rw [Plan.parameters, Plan.parameters, List.mem_append, KeyOperand.mem_filterMap_name?,
      KeyOperand.mem_filterMap_name?, Unary.operands, Expr.mem_operands_conjunction hc, or_comm]
  | none =>
    rw [Plan.parameters, KeyOperand.mem_filterMap_name?, Expr.eq_nil_of_conjunction hc]
    simp

/-- **A path has the parameters of its conjuncts**: a conjunct that has one is tried on every row
read. -/
theorem Through.mem_parameters (h : p.Through conjuncts key ty) :
    name ∈ p.toPlan.parameters ↔ ∃ e ∈ conjuncts, .parameter name ∈ e.operands := by
  rw [mem_parameters_toPlan, h.residual_eq]
  constructor
  · rintro (hk | ⟨e, he, hk⟩)
    · exact (h.mem_operands (mem_operands_of_source hk)).resolve_right (by simp)
    · exact ⟨e, (List.mem_filter.mp he).1, hk⟩
  · -- A conjunct that the keys settle has no parameters, so this one is left over.
    rintro ⟨e, he, hk⟩
    refine Or.inr ⟨e, List.mem_filter.mpr ⟨he, ?_⟩, hk⟩
    cases hexact : (Extraction.ofPredicate key.column ty e).isExact with
    | false => rfl
    | true => cases Extraction.not_isParameter_of_isExact key.column ty false e hexact _ hk

end AccessPath

namespace Plan

theorem mem_parameters_foldl_union {name : String} (paths : List AccessPath) : ∀ q : Plan,
    name ∈ (paths.foldl (fun p path => .binary .union p path.toPlan) q).parameters ↔
      name ∈ q.parameters ∨ ∃ path ∈ paths, name ∈ path.toPlan.parameters := by
  induction paths with
  | nil => simp
  | cons path paths ih =>
    intro q
    rw [List.foldl_cons, ih]
    simp [parameters, Binary.operands, Binary.binds, or_assoc]

/-! ### Positions below a reordering operator -/

theorem put_at? {p part : Plan} {path : List Nat} (h : p.at? path = some part) :
    p.put path part = p := by
  fun_induction at? p path with
  | case1 p =>
    obtain rfl := Option.some.inj h
    simp [put]
  | case2 op input path ih => rw [put, ih h]
  | case3 op left right path ih => rw [put, ih h]
  | case4 op left right path ih => rw [put, ih h]
  | case5 p path hnil hu hl hr => cases h

theorem reordersAbove_of_at? {p parent : Plan} {path : List Nat} {i : Nat}
    (h : p.at? path = some parent) (hparent : parent.isReordering)
    (hpart : (p.at? (path ++ [i])).isSome) : p.reordersAbove (path ++ [i]) := by
  fun_induction at? p path with
  | case1 p =>
    obtain rfl := Option.some.inj h
    -- The parent is the plan itself, and the child is one of its inputs.
    cases p with
    | source leaf => cases hparent
    | unary op input =>
      rcases i with _ | i
      · simpa [reordersAbove] using hparent
      · simp [at?] at hpart
    | binary op left right =>
      rcases i with _ | _ | i
      · simpa [reordersAbove] using hparent
      · simpa [reordersAbove] using hparent
      · simp [at?] at hpart
  | case2 op input path ih =>
    rw [List.cons_append, reordersAbove, ih h hpart, Bool.or_true]
  | case3 op left right path ih =>
    rw [List.cons_append, reordersAbove, ih h hpart, Bool.or_true]
  | case4 op left right path ih =>
    rw [List.cons_append, reordersAbove, ih h hpart, Bool.or_true]
  | case5 p path hnil hu hl hr => cases h

end Plan

namespace Selector

variable {s : Selector} {expected : Bindings} {store : Tables} {S : Set Value} {b : Bindings}
  {primary : Index} {predicate : Expr}

/-- A choice has the parameters of the predicate. -/
theorem mem_parameters_choice {indexes : List Index} {choice : AccessChoice} {name : String}
    (hchoice : s.choose? expected indexes primary predicate = some choice) :
    name ∈ choice.toPlan.parameters ↔ .parameter name ∈ predicate.operands := by
  -- A single path has the parameters of its conjuncts, in its keys or in its residual.
  have hpath : ∀ {conjuncts path},
      AccessPath.best? s.costModel expected indexes conjuncts = some path →
      (name ∈ path.toPlan.parameters ↔ ∃ e ∈ conjuncts, .parameter name ∈ e.operands) := by
    intro conjuncts path hbest
    obtain ⟨-, key, ty, hthrough⟩ := AccessPath.through_of_best? hbest
    exact hthrough.mem_parameters
  rcases choose?_cases hchoice with
    ⟨path, rfl, hbest⟩ | ⟨first, rest, clauses, rfl, hclauses, hpaths⟩
  · rw [AccessChoice.toPlan, hpath hbest, predicate.mem_operands_iff_conjuncts]
  · rw [AccessChoice.toPlan, Plan.mem_parameters_foldl_union, Dnf.mem_operands_iff_expand hclauses]
    -- The parameters of all paths are those of all clauses.
    have hall : ∀ {clauses paths}, List.Forall₂ (fun clause path =>
        AccessPath.best? s.costModel expected indexes clause = some path) clauses paths →
        ((∃ path ∈ paths, name ∈ path.toPlan.parameters) ↔
          ∃ clause ∈ clauses, ∃ e ∈ clause, .parameter name ∈ e.operands) := by
      intro clauses paths h
      induction h with
      | nil => simp
      | cons hbest _ ih => simp only [List.mem_cons, exists_eq_or_imp, hpath hbest, ih]
    rw [← hall (forall₂_of_mapM hpaths)]
    simp

/-! ### Filters below a reordering operator -/

/-- A filter over a scan whose order cannot be seen is replaced by a plan that gives its rows, in
some order. -/
theorem exists_run_rewrite_filter (hS : TransitiveOn S) {rows : List Row}
    (hserves : primary.isPrimary → s.Serves store S primary)
    (hready : predicate.Ready b S primary.columns.length)
    (hrun : (Plan.unary (.filter predicate) (.source (.scan primary))).run store b = .ok rows) :
    ∃ out, (s.rewrite expected (.unary (.filter predicate) (.source (.scan primary))) false).run
      store b = .ok out ∧ out.Perm rows := by
  rw [rewrite]
  split
  · rename_i hprimary
    have hserves := hserves hprimary
    cases hq : s.replaceFilter? expected (s.candidates primary) primary predicate false with
    | none => exact ⟨rows, hrun, List.Perm.refl _⟩
    | some q =>
      -- The filter gave rows, so there is a table, and the choice gives its rows in another order.
      obtain ⟨choice, hchoice, rfl⟩ := replaceFilter?_cases hq
      have hfilter := hserves.toOption_run_filter hready
      rw [hrun, toOption_ok] at hfilter
      obtain ⟨table, htable, rfl⟩ := Option.map_eq_some_iff.mp hfilter.symm
      obtain ⟨out, hout, hperm⟩ := exists_run_choice hserves hS htable hready hchoice
      exact ⟨out, hout, hperm.trans ((primary.key.sort_perm table).filter _).symm⟩
  · exact ⟨rows, hrun, List.Perm.refl _⟩

/-- What takes the place of a filter gives no rows without a table. -/
theorem exists_table_of_run_rewrite (hserves : s.Serves store S primary)
    (hprimary : primary.isPrimary) {out : List Row}
    (hrun : (s.rewrite expected (.unary (.filter predicate) (.source (.scan primary)))
      false).run store b = .ok out) : (store.table? primary).isSome := by
  cases hrows : store.table? primary with
  | some rows => rfl
  | none =>
    rw [rewrite, if_pos hprimary] at hrun
    cases hq : s.replaceFilter? expected (s.candidates primary) primary predicate false with
    | none =>
      -- The filter is not replaced, and its scan finds no table.
      rw [hq, Option.getD_none, Plan.run, Plan.run, Source.run, Tables.scan_toStore,
        Tables.scan, hrows] at hrun
      cases hrun
    | some q =>
      -- The filter is replaced, and no path finds a table either.
      obtain ⟨choice, hchoice, rfl⟩ := replaceFilter?_cases hq
      rw [hq, Option.getD_some, ← toOption_eq_some_iff,
        hserves.toOption_run_replacement_of_no_table hrows hchoice] at hrun
      cases hrun

theorem mem_parameters_filter {name : String} :
    name ∈ (Plan.unary (.filter predicate) (.source (.scan primary))).parameters ↔
      .parameter name ∈ predicate.operands := by
  rw [Plan.parameters, Plan.parameters, Source.operands, List.filterMap_nil, List.append_nil,
    KeyOperand.mem_filterMap_name?, Unary.operands]

/-- Index selection keeps the parameters of a filter. -/
theorem mem_parameters_rewrite_filter {isObserved : Bool} {name : String} :
    name ∈ (s.rewrite expected (.unary (.filter predicate) (.source (.scan primary)))
        isObserved).parameters ↔
      name ∈ (Plan.unary (.filter predicate) (.source (.scan primary))).parameters := by
  rw [rewrite]
  split
  · cases hq : s.replaceFilter? expected (s.candidates primary) primary predicate isObserved with
    | none => rfl
    | some q =>
      obtain ⟨choice, hchoice, rfl⟩ := replaceFilter?_cases hq
      rw [Option.getD_some, mem_parameters_filter, ← mem_parameters_choice hchoice,
        AccessChoice.replacement]
      split
      · rfl
      · rfl
  · rfl

/-- The part at a position is rewritten as if its order could be seen, unless something above it
reorders. -/
theorem at?_rewrite (heffects : s.effects = .standard) {p : Plan} {path : List Nat} {op : Unary}
    {input : Plan} (h : p.at? path = some (.unary op input)) :
    (s.rewrite expected p true).at? path =
      some (s.rewrite expected (.unary op input) (!p.reordersAbove path)) := by
  have hput : (s.rewrite expected (p.put path (.unary op input)) true).at? path =
      some (s.rewrite expected (.unary op input) (true && !p.reordersAbove path)) :=
    at?_rewrite_put heffects p path true (by rw [h]; rfl)
  rwa [Plan.put_at? h, Bool.true_and] at hput

/-- **A filter right below a sort, a union or a concatenation gives its rows after index selection,
each as often as before**, wherever in a plan it stands.  What takes its place has the same
parameters. -/
theorem perm_below_reordering (settings : SelectionSettings) (catalog : Catalog) (model : CostModel)
    (earlier : List (Bindings × Plan)) (expected : Bindings) (p parent : Plan) (path : List Nat)
    (i : Nat) (predicate : Expr) (primary : Index) (hids : IdsApart (p :: earlier.map Prod.snd))
    (hparent : p.at? path = some parent) (hreorders : parent.isReordering)
    (hfilter : p.at? (path ++ [i]) = some (.unary (.filter predicate) (.source (.scan primary))))
    (hprimary : primary.isPrimary) :
    let s := Selector.mk settings catalog model .standard
    let f := Plan.unary (.filter predicate) (.source (.scan primary))
    ∃ q, (s.optimize expected p (s.cacheAfter earlier)).1.at? (path ++ [i]) = some q ∧
      (∀ name, name ∈ q.parameters ↔ name ∈ f.parameters) ∧
      ∀ store S b, s.Grounded store S f b →
        (∀ rows, f.run store b = .ok rows → ∃ out, q.run store b = .ok out ∧ out.Perm rows) ∧
        (∀ out, q.run store b = .ok out → ∃ rows, f.run store b = .ok rows ∧ out.Perm rows) ∧
        ((store.table? primary).isSome → ∃ rows, f.run store b = .ok rows) := by
  intro s f
  have habove : p.reordersAbove (path ++ [i]) :=
    Plan.reordersAbove_of_at? hparent hreorders (by rw [hfilter]; rfl)
  refine ⟨s.rewrite expected f false, ?_, fun name => mem_parameters_rewrite_filter,
    fun store S b h => ?_⟩
  · rw [optimize_eq_rewrite hids, at?_rewrite rfl hfilter, habove]
    rfl
  have hserves : s.Serves store S primary := h.serves primary (by simp [f, Plan.subplans]) hprimary
  have hready : predicate.Ready b S primary.columns.length :=
    h.filtersReady.self predicate primary rfl
  have hperm : ∀ rows, f.run store b = .ok rows →
      ∃ out, (s.rewrite expected f false).run store b = .ok out ∧ out.Perm rows :=
    fun rows hrows => exists_run_rewrite_filter h.trans (fun _ => hserves) hready hrows
  have hgives : (store.table? primary).isSome → ∃ rows, f.run store b = .ok rows := by
    intro htable
    obtain ⟨table, htable⟩ := Option.isSome_iff_exists.mp htable
    have hrun := hserves.toOption_run_filter hready
    rw [htable] at hrun
    exact ⟨_, toOption_eq_some_iff.mp hrun⟩
  refine ⟨hperm, fun out hout => ?_, hgives⟩
  -- Where the replacement gives rows there is a table, and then the filter gives rows as well.
  obtain ⟨rows, hrows⟩ := hgives (exists_table_of_run_rewrite hserves hprimary hout)
  obtain ⟨out', hout', hperm'⟩ := hperm rows hrows
  obtain rfl := Except.ok.inj (hout'.symm.trans hout)
  exact ⟨rows, hrows, hperm'⟩

end Selector

/-! ### A row that satisfies two clauses -/

namespace Sample

/-- The first user, and the users of some age. -/
def firstOrAtLeast : Expr := .or (.compare .eq (.column 0) (.literal (.int32 1))) atLeast

/-- The users who pass either test. -/
def found : Plan := .unary (.filter firstOrAtLeast) (.source (.scan (users 1)))

/-- The selector with the built-in costs that knows the index on ages. -/
def builtIn : Selector := .ofSettings .default fun _ => [usersByAge 1]

theorem grounded_found : builtIn.Grounded (store 1) data found bindings := by
  have hserves := serves_users 1
  constructor
  · exact Value.transitiveOn_of_ne_float fun v hv => hv
  · intro i hi _
    have hi : i = users 1 := by simpa [found, Plan.subplans] using hi
    rw [hi]
    exact ⟨hserves.table_eq, hserves.stores, hserves.toldApart⟩
  · decide
  · intro e i hi
    simp only [found, Plan.subplans, List.mem_cons, Plan.unary.injEq, Unary.filter.injEq,
      Plan.source.injEq, Source.scan.injEq, reduceCtorEq, List.not_mem_nil, or_false] at hi
    obtain ⟨rfl, rfl⟩ := hi
    decide
  · refine ⟨fun e i h k hk w hw x hx => ?_, fun _ _ h => by cases h⟩
    cases h
    simp only [firstOrAtLeast, atLeast, Expr.operands, List.nil_append, List.cons_append,
      List.mem_cons, List.not_mem_nil, or_false] at hk
    subst hx
    rcases hk with rfl | rfl <;> cases hw

/-- The first user is found by a seek and again by age, and is kept once. -/
theorem perm_below_reordering_found :
    let p := Plan.unary (.sort [.desc 1]) found
    let r := (builtIn.optimize bindings p (builtIn.cacheAfter [])).1
    r.same (.unary (.sort [.desc 1]) (.binary .union
      (.source (.seek (users 1) (.literal (.int32 1))))
      (.unary (.filter atLeast) (.source
        (.range (usersByAge 1) (.test (.compare .ge (.parameter "min")) false)))))) = true ∧
    ∃ q, r.at? [0] = some q ∧ (∀ name, name ∈ q.parameters ↔ name ∈ found.parameters) ∧
      ∃ out, q.run (store 1) bindings = .ok out ∧
        out.Perm [[.int32 1, .int32 30], [.int32 3, .int32 40]] := by
  intro p r
  have hids : Selector.IdsApart [p] := Selector.idsApart_of_scans fun i hi => by
    simpa [p, found, Plan.subplans] using hi
  have hrun : found.run (store 1) bindings =
      .ok [[.int32 1, .int32 30], [.int32 3, .int32 40]] := by
    rw [found, Plan.run, run_users (table_users 1)]
    rfl
  obtain ⟨q, hq, hparameters, h⟩ := Selector.perm_below_reordering .default
    (fun _ => [usersByAge 1]) builtIn.costModel [] bindings p p [] 0 firstOrAtLeast
      (users 1) hids rfl rfl rfl rfl
  exact ⟨by decide +kernel, q, hq, hparameters, (h (store 1) data bindings grounded_found).1 _ hrun⟩

end Sample

end QueryPlanner
