import QueryPlanner.Access.Selection
import QueryPlanner.Proofs.Access.Paths

/-!
# Replacing a filter over a primary index

The plan that index selection puts in place of a filter over a primary scan gives the same rows:
through the primary index in the same order, otherwise in some order, which is restored by sorting
where it can be seen.  Sorting by the primary key restores it exactly, since no two rows tie there.

## Main definitions

* `AccessChoice.Answers` — the paths of a choice come to an answer.
* `Selector.Serves` — what a store has to hold for the candidates of a primary index.
* `Selector.chosen?`, `AccessChoice.replacement` — the choice that is cheap enough, and the plan it
  puts in place of the filter.

## Main results

* `Selector.choose?_cases` — a choice is one path for the conjuncts, or one for each clause.
* `Selector.Serves.givesIf_choice` — a choice gives certain rows if its paths come to an answer, and
  fails at an unbound parameter otherwise.
* `Selector.exists_run_choice` — a choice gives the rows of the filter, in some order.
* `Selector.toOption_run_replaceFilter?` — **a replacement with visible order gives the rows of the
  filter, in the same order**.
-/

namespace QueryPlanner

open Value (TransitiveOn)

/-- The paths of a choice for a predicate come to an answer over some rows, where a union has a path
for each clause that the predicate is split into. -/
def AccessChoice.Answers (b : Bindings) (rows : List Row) (predicate : Expr) (budget : Nat) :
    AccessChoice → Prop
  | .single path => path.Answers b rows predicate.conjuncts
  | .union first rest => ∀ clauses, Dnf.expand budget false predicate = .ok clauses →
      List.Forall₂ (fun clause path => path.Answers b rows clause) clauses (first :: rest)

/-- The plan that a choice puts in place of a filter: it is sorted by the primary key where an order
that it does not keep can be seen. -/
def AccessChoice.replacement (primary : Index) (isObserved : Bool) (choice : AccessChoice) : Plan :=
  if isObserved && !choice.keepsOrder primary then .unary (.sort primary.key) choice.toPlan
  else choice.toPlan

namespace Selector

/-- What a store has to hold for the candidates of a primary index: they read the same table, its
rows are as each of them may hold them, and no two compare equal under the primary key. -/
structure Serves (s : Selector) (store : Tables) (S : Set Value) (primary : Index) : Prop where
  table_eq : ∀ i ∈ s.candidates primary, store.table? i = store.table? primary
  stores : ∀ i ∈ s.candidates primary, ∀ rows ∈ store.table? primary, i.Stores S rows
  toldApart : ∀ rows ∈ store.table? primary,
    rows.Pairwise fun a c => primary.key.compareRows a c ≠ .eq

variable {s : Selector} {store : Tables} {S : Set Value} {primary : Index} {b : Bindings}
  {predicate : Expr} {expected : Bindings}

theorem mem_candidates_self (s : Selector) (primary : Index) : primary ∈ s.candidates primary := by
  simp [candidates]

/-- Candidates have the layout of the primary index. -/
theorem columns_of_mem_candidates {i : Index} (h : i ∈ s.candidates primary) :
    i.columns = primary.columns := by
  rcases List.mem_cons.mp h with rfl | h
  · rfl
  · have hlayout := (List.mem_filter.mp h).2
    simp only [Bool.and_eq_true, beq_iff_eq] at hlayout
    exact hlayout.2

/-- The only candidate with the number of the primary index is that index. -/
theorem eq_of_mem_candidates {i : Index} (h : i ∈ s.candidates primary) (hid : i.id = primary.id) :
    i = primary := by
  rcases List.mem_cons.mp h with rfl | h
  · rfl
  · have hne := (List.mem_filter.mp h).2
    simp [hid] at hne

namespace Serves

theorem not_keyEq (h : s.Serves store S primary) {rows : List Row}
    (hrows : rows ∈ store.table? primary) : rows.Pairwise fun a c => ¬ Row.keyEq a c := by
  refine (h.toldApart rows hrows).imp fun {a c} hne hkey => hne ?_
  exact primary.key.compareRows_of_keyEq hkey

/-- A path through a candidate that comes to an answer reads the rows that satisfy its conjuncts, in
the key order of the candidate. -/
theorem run_path (h : s.Serves store S primary) (hS : TransitiveOn S) {rows : List Row}
    (hrows : store.table? primary = some rows) {conjuncts : List Expr}
    (hsuits : ∀ e ∈ conjuncts, e.Suits b S primary.columns.length) {path : AccessPath}
    (hindex : path.index ∈ s.candidates primary) (hpath : ∃ key ty, path.Through conjuncts key ty)
    (hanswers : path.Answers b rows conjuncts) : path.toPlan.run store b =
      .ok ((path.index.key.sort rows).filter fun row => conjuncts.all (Expr.accepts row b)) := by
  obtain ⟨key, ty, hpath⟩ := hpath
  exact hpath.run_of_answers hS ((h.table_eq _ hindex).trans hrows) (h.stores _ hindex rows hrows)
    (columns_of_mem_candidates hindex ▸ hsuits) hanswers

theorem givesIf_path (h : s.Serves store S primary) (hS : TransitiveOn S) {rows : List Row}
    (hrows : store.table? primary = some rows) {conjuncts : List Expr}
    (hsuits : ∀ e ∈ conjuncts, e.Suits b S primary.columns.length) {path : AccessPath}
    (hindex : path.index ∈ s.candidates primary) (hpath : ∃ key ty, path.Through conjuncts key ty) :
    path.toPlan.GivesIf store b rows (path.Answers b rows conjuncts)
      fun row => conjuncts.all (Expr.accepts row b) where
  gives := fun hanswers => by
    refine ⟨_, h.run_path hS hrows hsuits hindex hpath hanswers, fun row => ?_, ?_⟩
    · rw [List.mem_filter, SortOrder.mem_sort]
    · -- Rows are told apart by key whatever their order, so sorting them changes nothing.
      refine List.Pairwise.filter _ ?_
      refine ((path.index.key.sort_perm rows).pairwise_iff ?_).mpr (h.not_keyEq hrows)
      intro x y hxy hyx
      exact hxy (Row.keyEq_comm y x ▸ hyx)
  fails := fun hanswers => by
    obtain ⟨key, ty, hpath⟩ := hpath
    exact hpath.fails_of_not_answers hS ((h.table_eq _ hindex).trans hrows)
      (h.stores _ hindex rows hrows) (columns_of_mem_candidates hindex ▸ hsuits) hanswers

end Serves

/-! ### Choices -/

/-- A choice is the best path for the conjuncts of the predicate, or the best one for each clause.
-/
theorem choose?_cases {indexes : List Index} {choice : AccessChoice}
    (h : s.choose? expected indexes primary predicate = some choice) :
    (∃ path, choice = .single path ∧
      AccessPath.best? s.costModel expected indexes predicate.conjuncts = some path) ∨
    ∃ first rest clauses, choice = .union first rest ∧
      Dnf.expand s.settings.clauseBudget false predicate = .ok clauses ∧
      clauses.mapM (AccessPath.best? s.costModel expected indexes) = some (first :: rest) := by
  have hsingle : ∀ {c}, (AccessPath.best? s.costModel expected indexes predicate.conjuncts).map
      AccessChoice.single = some c → ∃ path, c = .single path ∧
        AccessPath.best? s.costModel expected indexes predicate.conjuncts = some path := by
    intro c hc
    obtain ⟨path, hpath, rfl⟩ := Option.map_eq_some_iff.mp hc
    exact ⟨path, rfl, hpath⟩
  have hunion : ∀ {clauses c},
      AccessChoice.ofClauses? s.costModel expected indexes clauses = some c →
      ∃ first rest, c = .union first rest ∧
        clauses.mapM (AccessPath.best? s.costModel expected indexes) = some (first :: rest) := by
    intro clauses c hc
    unfold AccessChoice.ofClauses? at hc
    split at hc
    · rename_i first rest hpaths
      exact ⟨first, rest, (Option.some.inj hc).symm, hpaths⟩
    · cases hc
  unfold choose? at h
  dsimp only at h
  split at h
  · exact Or.inl (hsingle h)
  · rename_i dnf hdnf
    obtain ⟨clauses, hclauses, hdnf⟩ := bind_eq_ok_iff.mp hdnf
    obtain rfl := Except.ok.inj hdnf
    split at h
    · split at h
      · exact Or.inl (hsingle h)
      · rename_i union hu
        obtain ⟨first, rest, hc, hpaths⟩ := hunion hu
        exact Or.inr ⟨first, rest, clauses, (Option.some.inj h) ▸ hc, hclauses, hpaths⟩
      · -- A path and a union of paths are known, and the cheaper one is taken.
        rename_i best union hbest hu
        split at h
        · obtain ⟨first, rest, hc, hpaths⟩ := hunion hu
          exact Or.inr ⟨first, rest, clauses, (Option.some.inj h) ▸ hc, hclauses, hpaths⟩
        · exact Or.inl (hsingle (hbest.trans h))
    · exact Or.inl (hsingle h)

/-- Each clause of a predicate reads no more than the predicate, and has its own best path. -/
theorem forall₂_best_of_expand {budget : Nat} {clauses : List (List Expr)} {paths : List AccessPath}
    {indexes : List Index} (hclauses : Dnf.expand budget false predicate = .ok clauses)
    (hpaths : clauses.mapM (AccessPath.best? s.costModel expected indexes) = some paths) :
    List.Forall₂ (fun clause path => (∀ e ∈ clause, e.ReadsWithin predicate) ∧
      AccessPath.best? s.costModel expected indexes clause = some path) clauses paths :=
  (List.forall₂_and_left _ _).mpr
    ⟨Dnf.readsWithin_of_mem_expand budget false predicate clauses hclauses, forall₂_of_mapM hpaths⟩

/-- A choice for a predicate that is ready comes to an answer. -/
theorem answers_choice_of_ready {rows : List Row}
    (hwidth : ∀ row ∈ rows, row.length = primary.columns.length)
    (hready : predicate.Ready b S primary.columns.length) {indexes : List Index}
    {choice : AccessChoice} (hchoice : s.choose? expected indexes primary predicate = some choice) :
    choice.Answers b rows predicate s.settings.clauseBudget := by
  -- A single path answers for its conjuncts, all of which are parts of the predicate.
  have hpath : ∀ {conjuncts path}, (∀ e ∈ conjuncts, e.ReadsWithin predicate) →
      AccessPath.best? s.costModel expected indexes conjuncts = some path →
      path.Answers b rows conjuncts := by
    intro conjuncts path hreads hbest
    obtain ⟨-, key, ty, hthrough⟩ := AccessPath.through_of_best? hbest
    exact hthrough.answers_of_ready hwidth fun e he => (hreads e he).ready hready
  rcases choose?_cases hchoice with
    ⟨path, rfl, hbest⟩ | ⟨first, rest, clauses, rfl, hclauses, hpaths⟩
  · exact hpath (Expr.readsWithin_of_mem_conjuncts predicate) hbest
  · intro clauses' hclauses'
    obtain rfl := Except.ok.inj (hclauses.symm.trans hclauses')
    exact (forall₂_best_of_expand hclauses hpaths).imp
      fun clause path hclause => hpath hclause.1 hclause.2

/-- The paths of all clauses together give the rows that satisfy one of the clauses. -/
theorem Serves.givesIf_union (h : s.Serves store S primary) (hS : TransitiveOn S) {rows : List Row}
    (hrows : store.table? primary = some rows) (hsuits : predicate.Suits b S primary.columns.length)
    {clauses : List (List Expr)}
    (hclauses : Dnf.expand s.settings.clauseBudget false predicate = .ok clauses)
    {first : AccessPath} {rest : List AccessPath}
    (hpaths : clauses.mapM (AccessPath.best? s.costModel expected (s.candidates primary)) =
      some (first :: rest)) :
    (AccessChoice.union first rest).toPlan.GivesIf store b rows
      (List.Forall₂ (fun clause path => path.Answers b rows clause) clauses (first :: rest))
      fun row => clauses.any fun clause => clause.all (Expr.accepts row b) := by
  -- Each clause reads no more than the predicate, so its path gives the rows that pass it.
  have hgives : List.Forall₂ (fun clause path => path.toPlan.GivesIf store b rows
      (path.Answers b rows clause) fun row => clause.all (Expr.accepts row b)) clauses
        (first :: rest) := by
    refine (forall₂_best_of_expand hclauses hpaths).imp fun clause path hclause => ?_
    obtain ⟨hindex, hthrough⟩ := AccessPath.through_of_best? hclause.2
    exact h.givesIf_path hS hrows (fun e he => (hclause.1 e he).suits hsuits) hindex hthrough
  cases hgives with
  | cons hfirst hrest =>
    simpa only [List.forall₂_cons, List.any_cons, AccessChoice.toPlan] using
      Plan.GivesIf.foldl_union (h.not_keyEq hrows) hrest _ _ _ hfirst

/-- **A choice gives the rows that pass a test if its paths come to an answer, and fails at an
unbound parameter otherwise.** The test is that of the predicate wherever the predicate has an
answer. -/
theorem Serves.givesIf_choice (h : s.Serves store S primary) (hS : TransitiveOn S) {rows : List Row}
    (hrows : store.table? primary = some rows) (hsuits : predicate.Suits b S primary.columns.length)
    {choice : AccessChoice}
    (hchoice : s.choose? expected (s.candidates primary) primary predicate = some choice) :
    ∃ test : Row → Bool, (∀ row, predicate.Decided row b → test row = predicate.accepts row b) ∧
      choice.toPlan.GivesIf store b rows
        (choice.Answers b rows predicate s.settings.clauseBudget) test := by
  rcases choose?_cases hchoice with
    ⟨path, rfl, hpath⟩ | ⟨first, rest, clauses, rfl, hclauses, hpaths⟩
  · -- One path for the whole conjunction.
    obtain ⟨hindex, hthrough⟩ := AccessPath.through_of_best? hpath
    refine ⟨_, fun row _ => Expr.all_accepts_conjuncts row b predicate,
      h.givesIf_path hS hrows (fun e he => ?_) hindex hthrough⟩
    exact (Expr.readsWithin_of_mem_conjuncts predicate e he).suits hsuits
  · -- A union of the paths of all clauses.
    have hanswers :
        (AccessChoice.union first rest).Answers b rows predicate s.settings.clauseBudget ↔
          List.Forall₂ (fun clause path => path.Answers b rows clause) clauses (first :: rest) := by
      simp only [AccessChoice.Answers, hclauses, Except.ok.injEq, forall_eq']
    rw [hanswers]
    refine ⟨_, fun row hrow => ?_, h.givesIf_union hS hrows hsuits hclauses hpaths⟩
    rw [Dnf.any_accepts_of_holds _ _ _ clauses _ hrow.holds_eq hclauses, Bool.bne_false]

/-- **A choice gives the rows that satisfy the predicate, in some order.** -/
theorem exists_run_choice (h : s.Serves store S primary) (hS : TransitiveOn S) {rows : List Row}
    (hrows : store.table? primary = some rows)
    (hready : predicate.Ready b S primary.columns.length) {choice : AccessChoice}
    (hchoice : s.choose? expected (s.candidates primary) primary predicate = some choice) :
    ∃ out, choice.toPlan.run store b = .ok out ∧
      out.Perm (rows.filter fun row => predicate.accepts row b) := by
  have hwidth := (h.stores primary (s.mem_candidates_self primary) rows hrows).width
  obtain ⟨test, htest, hgives⟩ := h.givesIf_choice hS hrows hready.suits hchoice
  have hfilter : rows.filter test = rows.filter fun row => predicate.accepts row b :=
    List.filter_congr fun row hrow => htest row (hready.decided (hwidth row hrow))
  rw [← hfilter]
  exact (hgives.gives (answers_choice_of_ready hwidth hready hchoice)).exists_perm
    (h.not_keyEq hrows)

/-- A choice that keeps the order gives the rows in the order of the primary index. -/
theorem run_choice_of_keepsOrder (h : s.Serves store S primary) (hS : TransitiveOn S)
    {rows : List Row} (hrows : store.table? primary = some rows)
    (hsuits : predicate.Suits b S primary.columns.length) {choice : AccessChoice}
    (hchoice : s.choose? expected (s.candidates primary) primary predicate = some choice)
    (hanswers : choice.Answers b rows predicate s.settings.clauseBudget)
    (hkeeps : choice.keepsOrder primary) :
    choice.toPlan.run store b =
      .ok ((primary.key.sort rows).filter fun row => predicate.accepts row b) := by
  rcases choose?_cases hchoice with ⟨path, rfl, hpath⟩ | ⟨_, _, _, rfl, _, _⟩
  · obtain ⟨hindex, hthrough⟩ := AccessPath.through_of_best? hpath
    -- A path that keeps the order goes through the primary index.
    have hprimary := eq_of_mem_candidates hindex (by simpa [AccessChoice.keepsOrder] using hkeeps)
    have hconjuncts : ∀ e ∈ predicate.conjuncts, e.Suits b S primary.columns.length :=
      fun e he => (Expr.readsWithin_of_mem_conjuncts predicate e he).suits hsuits
    have hrun := h.run_path hS hrows hconjuncts hindex hthrough hanswers
    simpa only [hprimary, AccessChoice.toPlan, Expr.all_accepts_conjuncts] using hrun
  · -- A union never keeps the order.
    simp [AccessChoice.keepsOrder] at hkeeps

/-- Without a table a choice gives no rows. -/
theorem run_choice_of_no_table (h : s.Serves store S primary) (hrows : store.table? primary = none)
    {choice : AccessChoice}
    (hchoice : s.choose? expected (s.candidates primary) primary predicate = some choice) :
    (choice.toPlan.run store b).toOption = none := by
  -- A union fails as soon as its first input does.
  have hfold : ∀ (rest : List AccessPath) (q : Plan), (q.run store b).toOption = none →
      ((rest.foldl (fun p path => Plan.binary .union p path.toPlan) q).run store b).toOption
        = none := by
    intro rest
    induction rest with
    | nil => intro q hq; exact hq
    | cons path rest ih =>
      intro q hq
      refine ih _ ?_
      rw [Plan.run, toOption_bind, hq]
      rfl
  have hpathRun : ∀ {conjuncts path},
      AccessPath.best? s.costModel expected (s.candidates primary) conjuncts = some path →
      (path.toPlan.run store b).toOption = none := by
    intro conjuncts path hpath
    obtain ⟨hindex, -⟩ := AccessPath.through_of_best? hpath
    exact AccessPath.toOption_run_of_no_table ((h.table_eq _ hindex).trans hrows)
  rcases choose?_cases hchoice with
    ⟨path, rfl, hpath⟩ | ⟨first, rest, clauses, rfl, hclauses, hpaths⟩
  · exact hpathRun hpath
  · cases forall₂_of_mapM hpaths with
    | cons hfirst _ => exact hfold rest _ (hpathRun hfirst)

/-! ### The replaced filter -/

theorem run_filter_scan {rows : List Row} (hrows : store.table? primary = some rows) :
    (Plan.unary (.filter predicate) (.source (.scan primary))).run store b =
      keepRows (fun row => predicate.holds row b) (primary.key.sort rows) := by
  rw [Plan.run, Plan.run, Source.run, Tables.scan_toStore, Tables.scan, hrows]
  rfl

/-- A filter over a primary scan whose predicate has an answer on every row gives the rows that
satisfy it, in key order. -/
theorem run_filter_of_decided {rows : List Row} (hrows : store.table? primary = some rows)
    (hdecided : ∀ row ∈ rows, predicate.Decided row b) :
    (Plan.unary (.filter predicate) (.source (.scan primary))).run store b =
      .ok ((primary.key.sort rows).filter fun row => predicate.accepts row b) := by
  rw [run_filter_scan hrows]
  exact keepRows_eq _ fun row hrow => (hdecided row (SortOrder.mem_sort.mp hrow)).holds_eq

theorem Serves.toOption_run_filter (h : s.Serves store S primary)
    (hready : predicate.Ready b S primary.columns.length) :
    ((Plan.unary (.filter predicate) (.source (.scan primary))).run store b).toOption =
      (store.table? primary).map fun rows =>
        (primary.key.sort rows).filter fun row => predicate.accepts row b := by
  cases hrows : store.table? primary with
  | none =>
    simp only [Plan.run, Source.run, toOption_bind, store.toOption_scan, hrows, Option.map_none,
      Option.bind_none]
  | some rows =>
    have hstores := h.stores primary (s.mem_candidates_self primary) rows hrows
    rw [run_filter_of_decided hrows fun row hrow => hready.decided (hstores.width row hrow)]
    rfl

/-- Sorting by the primary key restores the order of the filter. -/
theorem Serves.sort_eq (h : s.Serves store S primary) (hS : TransitiveOn S) {rows : List Row}
    (hrows : store.table? primary = some rows) {test : Row → Bool} {out : List Row}
    (hperm : out.Perm (rows.filter test)) :
    primary.key.sort out = (primary.key.sort rows).filter test := by
  have hstores := h.stores primary (s.mem_candidates_self primary) rows hrows
  have horders := hstores.ordersOn hS primary.key
  rw [SortOrder.sort_eq_mergeSort, SortOrder.sort_eq_mergeSort,
    horders.mergeSort_filter fun _ hrow => hrow]
  refine horders.mergeSort_eq_of_perm (fun row hrow => (List.mem_filter.mp hrow).1) hperm ?_
  -- Rows that tie have the same primary key, which no two rows of the table have.
  have htieless : primary.key.Tieless rows := h.toldApart rows hrows
  exact fun a ha c hc => htieless.eq_of_le (List.mem_filter.mp ha).1 (List.mem_filter.mp hc).1

/-- The choice that takes the place of a filter: one that costs less than scanning and filtering. -/
def chosen? (s : Selector) (expected : Bindings) (indexes : List Index) (primary : Index)
    (predicate : Expr) : Option AccessChoice :=
  (s.choose? expected indexes primary predicate).filter fun choice =>
    choice.total.before (s.costModel primary .full).withFilter.total

theorem replaceFilter?_eq (s : Selector) (expected : Bindings) (indexes : List Index)
    (primary : Index) (predicate : Expr) (isObserved : Bool) :
    s.replaceFilter? expected indexes primary predicate isObserved =
      (s.chosen? expected indexes primary predicate).map
        (AccessChoice.replacement primary isObserved) := by
  rw [replaceFilter?, chosen?]
  cases s.choose? expected indexes primary predicate with
  | none => rfl
  | some choice =>
    simp only [Option.bind_eq_bind, Option.bind_some, Option.filter_some]
    split
    · exact (apply_ite some _ _ _).symm
    · rfl

theorem replaceFilter?_cases {indexes : List Index} {isObserved : Bool} {q : Plan}
    (h : s.replaceFilter? expected indexes primary predicate isObserved = some q) :
    ∃ choice, s.choose? expected indexes primary predicate = some choice ∧
      choice.replacement primary isObserved = q := by
  rw [replaceFilter?_eq] at h
  obtain ⟨choice, hchosen, rfl⟩ := Option.map_eq_some_iff.mp h
  exact ⟨choice, (Option.filter_eq_some_iff.mp hchosen).1, rfl⟩

/-- A replacement whose order can be seen gives rows in the order of the filter, if the paths of the
choice come to an answer, and fails at an unbound parameter otherwise. -/
theorem Serves.run_replacement (h : s.Serves store S primary) (hS : TransitiveOn S)
    {rows : List Row} (hrows : store.table? primary = some rows)
    (hsuits : predicate.Suits b S primary.columns.length) {choice : AccessChoice}
    (hchoice : s.choose? expected (s.candidates primary) primary predicate = some choice) :
    (choice.Answers b rows predicate s.settings.clauseBudget →
      ∃ test : Row → Bool, (∀ row, predicate.Decided row b → test row = predicate.accepts row b) ∧
        (choice.replacement primary true).run store b = .ok ((primary.key.sort rows).filter test)) ∧
    (¬ choice.Answers b rows predicate s.settings.clauseBudget →
      (choice.replacement primary true).FailsUnbound store b) := by
  obtain ⟨test, htest, hgives⟩ := h.givesIf_choice hS hrows hsuits hchoice
  unfold AccessChoice.replacement
  constructor
  · intro hanswers
    -- The rows come in any order and are sorted back, or they come in the order of the primary
    -- index.
    split
    · obtain ⟨out, hrun, hperm⟩ := (hgives.gives hanswers).exists_perm (h.not_keyEq hrows)
      refine ⟨test, htest, ?_⟩
      rw [Plan.run, hrun, ok_bind, Unary.run, h.sort_eq hS hrows hperm]
    · next hkeeps =>
      have hkeeps : choice.keepsOrder primary := by simpa using hkeeps
      exact ⟨_, fun _ _ => rfl, run_choice_of_keepsOrder h hS hrows hsuits hchoice hanswers hkeeps⟩
  · intro hanswers
    obtain ⟨name, hname⟩ := hgives.fails hanswers
    refine ⟨name, ?_⟩
    split
    · rw [Plan.run, hname, error_bind]
    · exact hname

theorem Serves.toOption_run_replacement_of_no_table (h : s.Serves store S primary)
    (hrows : store.table? primary = none) {choice : AccessChoice}
    (hchoice : s.choose? expected (s.candidates primary) primary predicate = some choice)
    (isObserved : Bool) :
    ((choice.replacement primary isObserved).run store b).toOption = none := by
  have hnone : (choice.toPlan.run store b).toOption = none := run_choice_of_no_table h hrows hchoice
  unfold AccessChoice.replacement
  split
  · rw [Plan.run, toOption_bind, hnone, Option.bind_none]
  · exact hnone

/-- **A replacement whose order can be seen gives the rows of the filter, in the same order.** -/
theorem toOption_run_replaceFilter? (h : s.Serves store S primary) (hS : TransitiveOn S)
    (hready : predicate.Ready b S primary.columns.length) {q : Plan}
    (hq : s.replaceFilter? expected (s.candidates primary) primary predicate true = some q) :
    (q.run store b).toOption =
      ((Plan.unary (.filter predicate) (.source (.scan primary))).run store b).toOption := by
  obtain ⟨choice, hchoice, rfl⟩ := replaceFilter?_cases hq
  rw [h.toOption_run_filter hready]
  cases hrows : store.table? primary with
  | none => rw [h.toOption_run_replacement_of_no_table hrows hchoice, Option.map_none]
  | some rows =>
    have hwidth := (h.stores primary (s.mem_candidates_self primary) rows hrows).width
    obtain ⟨test, htest, hrun⟩ := (h.run_replacement hS hrows hready.suits hchoice).1
      (answers_choice_of_ready hwidth hready hchoice)
    -- The test agrees with the predicate wherever that has an answer, which is on all rows.
    rw [hrun, Option.map_some, toOption_ok]
    refine congrArg some (List.filter_congr fun row hrow => htest row ?_)
    exact hready.decided (hwidth row (SortOrder.mem_sort.mp hrow))

/-- A replacement whose order can be seen has the header of the filter. -/
theorem header_replaceFilter? {q : Plan}
    (hq : s.replaceFilter? expected (s.candidates primary) primary predicate true = some q) :
    q.header = primary.header := by
  -- A union has the columns of its first input.
  have hcolumns : ∀ (rest : List AccessPath) (p : Plan), p.header.columns = primary.columns →
      (rest.foldl (fun p path => Plan.binary .union p path.toPlan) p).header.columns =
        primary.columns := by
    intro rest
    induction rest with
    | nil => intro p hp; exact hp
    | cons path rest ih => intro p hp; exact ih _ hp
  obtain ⟨choice, hchoice, rfl⟩ := replaceFilter?_cases hq
  unfold AccessChoice.replacement
  rcases choose?_cases hchoice with ⟨path, rfl, hpath⟩ | ⟨first, rest, clauses, rfl, _, hpaths⟩
  · obtain ⟨hindex, -⟩ := AccessPath.through_of_best? hpath
    have hpathHeader : path.toPlan.header = path.index.header := path.header_toPlan
    split
    · -- The order of the path is replaced by that of the sort above it.
      simp only [Plan.header, AccessChoice.toPlan, hpathHeader, Unary.header, Header.withOrder,
        Index.header, columns_of_mem_candidates hindex]
    · -- Without a sort the path goes through the primary index itself.
      rename_i hkeeps
      have hid : path.index.id = primary.id := by simpa [AccessChoice.keepsOrder] using hkeeps
      rw [← eq_of_mem_candidates hindex hid]
      exact hpathHeader
  · cases forall₂_of_mapM hpaths with
    | cons hfirst _ =>
      obtain ⟨hindex, -⟩ := AccessPath.through_of_best? hfirst
      have hfirstColumns : first.toPlan.header.columns = primary.columns := by
        rw [first.header_toPlan]
        exact columns_of_mem_candidates hindex
      simp only [AccessChoice.keepsOrder, Bool.not_false, Bool.and_self, if_true, Plan.header,
        AccessChoice.toPlan, Unary.header, Header.withOrder, hcolumns rest _ hfirstColumns,
        Index.header]

end Selector

end QueryPlanner
