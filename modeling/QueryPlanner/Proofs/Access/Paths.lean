import QueryPlanner.Access.Path
import QueryPlanner.Proofs.Key.Extraction
import QueryPlanner.Proofs.Run.Contexts

/-!
# What access paths read

An access path reads the rows of its index whose leading key satisfies the extracted condition, and
then tests the conjuncts that the condition does not settle.  Together these are the rows that
satisfy every conjunct, in the key order of the index.  One path for each clause of a predicate
gives the same rows in some order, each once, since the rows of the table are told apart by the
primary key.

Parameters may be unbound.  A condition then admits every key, and the conjuncts fail on a row as
the whole conjunction would; only the keys that a leaf seeks have to be bound beforehand.

## Main definitions

* `Index.Stores` — rows as an index may hold them.
* `AccessPath.Through` — the path through an index for some conjuncts, without its cost.
* `AccessPath.reads` — whether a path reads a row.
* `AccessPath.Answers` — a path comes to an answer over some rows.
* `Plan.GivesIf` — a plan gives certain rows under a condition, and fails at an unbound parameter
  otherwise.

## Main results

* `AccessPath.Through.run_eq` — a path tries all its conjuncts on the rows that it reads.
* `AccessPath.Through.run_of_answers` — a path that comes to an answer reads the rows that satisfy
  its conjuncts.
* `AccessPath.Through.fails_of_not_answers` — any other path fails at an unbound parameter.
* `Plan.GivesIf.foldl_union` — the union of paths for clauses gives the rows that satisfy one of
  them.
-/

namespace QueryPlanner

open Value (TransitiveOn KeySpace)

/-! ### Conditions that select single keys -/

namespace KeyOperand

theorem mapM_value?_eq {b : Bindings} : ∀ {ks : List KeyOperand},
    (∀ k ∈ ks, (k.value? b).isSome) → ks.mapM (value? b) = some (ks.filterMap (value? b)) := by
  intro ks
  induction ks with
  | nil => intro _; rfl
  | cons k ks ih =>
    intro h
    obtain ⟨w, hw⟩ := Option.isSome_iff_exists.mp (h k (by simp))
    rw [List.mapM_cons, hw, ih fun k' hk' => h k' (by simp [hk'])]
    simp [hw]

theorem resolveAll_eq {b : Bindings} : ∀ {ks : List KeyOperand},
    (∀ k ∈ ks, (k.value? b).isSome) → resolveAll b ks = .ok (ks.filterMap (value? b)) := by
  intro ks
  induction ks with
  | nil => intro _; rfl
  | cons k ks ih =>
    intro h
    obtain ⟨w, hw⟩ := Option.isSome_iff_exists.mp (h k (by simp))
    rw [resolveAll, resolve_eq_ok_iff.mpr hw, ok_bind, ih fun k' hk' => h k' (by simp [hk'])]
    simp [hw]

theorem exists_unbound_of_resolve {b : Bindings} {k : KeyOperand} (h : ¬ (k.value? b).isSome) :
    ∃ name, k.resolve b = .error (.unboundParameter name) := by
  cases k with
  | literal v => simp [value?] at h
  | parameter name =>
    have hnone : b.get? name = none := by simpa [value?] using h
    exact ⟨name, by rw [resolve, Bindings.resolve, hnone]⟩

theorem exists_unbound_of_resolveAll {b : Bindings} : ∀ {ks : List KeyOperand},
    ¬ (∀ k ∈ ks, (k.value? b).isSome) →
      ∃ name, resolveAll b ks = .error (.unboundParameter name) := by
  intro ks
  induction ks with
  | nil => intro h; exact absurd (by simp) h
  | cons k ks ih =>
    intro h
    by_cases hk : (k.value? b).isSome
    · obtain ⟨w, hw⟩ := Option.isSome_iff_exists.mp hk
      obtain ⟨name, hname⟩ := ih fun hks => h (List.forall_mem_cons.mpr ⟨hk, hks⟩)
      exact ⟨name, by rw [resolveAll, resolve_eq_ok_iff.mpr hw, ok_bind, hname, error_bind]⟩
    · obtain ⟨name, hname⟩ := exists_unbound_of_resolve hk
      exact ⟨name, by rw [resolveAll, hname, error_bind]⟩

theorem mem_of_mem_filterMap {b : Bindings} {S : Set Value} {ks : List KeyOperand}
    (h : ValuesIn b S ks) : ∀ w ∈ ks.filterMap (value? b), w ∈ S := by
  intro w hw
  obtain ⟨k, hk, hkw⟩ := List.mem_filterMap.mp hw
  exact h k hk w hkw

end KeyOperand

theorem any_test_eq (v w : Value) :
    (v.compare? w).any CompareOp.eq.test = decide (v.compare? w = some .eq) := by
  cases v.compare? w with
  | none => rfl
  | some o => cases o <;> rfl

namespace KeyCondition

theorem pointKeys?_of_seekKey? {c : KeyCondition} {k : KeyOperand} (h : c.seekKey? = some k) :
    c.pointKeys? = some [k] := by
  unfold seekKey? at h
  split at h
  · obtain rfl := Option.some.inj h
    rfl
  · cases h

/-- Each part of a disjunction that selects single keys selects some of them. -/
theorem exists_of_pointKeysOfAny?_cons {c : KeyCondition} {cs : List KeyCondition}
    {ks : List KeyOperand} (h : pointKeysOfAny? (c :: cs) = some ks) :
    ∃ first rest, c.pointKeys? = some first ∧ pointKeysOfAny? cs = some rest ∧
      ks = first ++ rest := by
  rw [pointKeysOfAny?] at h
  obtain ⟨first, hfirst, h⟩ := Option.bind_eq_some_iff.mp h
  obtain ⟨rest, hrest, h⟩ := Option.bind_eq_some_iff.mp h
  exact ⟨first, rest, hfirst, hrest, (Option.some.inj h).symm⟩

theorem admits_test_of_pointKeys? {b : Bindings} {v : Value} {t : KeyTest} {ks : List KeyOperand}
    (h : t.pointKeys? = some ks) (hb : ∀ k ∈ ks, (k.value? b).isSome) :
    t.admits b v false = (ks.filterMap (KeyOperand.value? b)).any fun w =>
      v.compare? w = some .eq := by
  unfold KeyTest.pointKeys? at h
  split at h
  · obtain rfl := Option.some.inj h
    rename_i k
    obtain ⟨w, hw⟩ := Option.isSome_iff_exists.mp (hb k (by simp))
    simp [KeyTest.admits, KeyTest.passes?, hw, any_test_eq]
  · obtain rfl := Option.some.inj h
    simp [KeyTest.admits, KeyTest.passes?, KeyOperand.mapM_value?_eq hb]
  · cases h

mutual

/-- A condition that selects single keys admits the values of its operands. -/
theorem admits_of_pointKeys? {b : Bindings} {v : Value} : ∀ (c : KeyCondition)
    (ks : List KeyOperand), c.pointKeys? = some ks → (∀ k ∈ ks, (k.value? b).isSome) →
    c.admits b v = (ks.filterMap (KeyOperand.value? b)).any fun w => v.compare? w = some .eq
  | .always, _, h, _ => by simp [pointKeys?] at h
  | .never, _, h, _ => by simp [pointKeys?] at h
  | .test t false, ks, h, hb => admits_test_of_pointKeys? h hb
  | .test t true, _, h, _ => by simp [pointKeys?] at h
  | .all parts, _, h, _ => by simp [pointKeys?] at h
  | .any parts, ks, h, hb => admitsAny_of_pointKeysOfAny? parts ks h hb

theorem admitsAny_of_pointKeysOfAny? {b : Bindings} {v : Value} : ∀ (cs : List KeyCondition)
    (ks : List KeyOperand), pointKeysOfAny? cs = some ks → (∀ k ∈ ks, (k.value? b).isSome) →
    admitsAny b v cs = (ks.filterMap (KeyOperand.value? b)).any fun w => v.compare? w = some .eq
  | [], ks, h, _ => by
    obtain rfl := Option.some.inj h
    rfl
  | c :: cs, ks, h, hb => by
    obtain ⟨first, rest, hfirst, hrest, rfl⟩ := exists_of_pointKeysOfAny?_cons h
    rw [admitsAny, List.filterMap_append, List.any_append,
      admits_of_pointKeys? c first hfirst fun k hk => hb k (by simp [hk]),
      admitsAny_of_pointKeysOfAny? cs rest hrest fun k hk => hb k (by simp [hk])]

end

mutual

/-- The operands of selected keys are operands of the condition. -/
theorem mem_operands_of_pointKeys? : ∀ (c : KeyCondition) (ks : List KeyOperand),
    c.pointKeys? = some ks → ∀ k ∈ ks, k ∈ c.operands
  | .always, _, h => by simp [pointKeys?] at h
  | .never, _, h => by simp [pointKeys?] at h
  | .test t false, ks, h => by
    intro k hk
    rw [pointKeys?] at h
    unfold KeyTest.pointKeys? at h
    -- Equality and membership give points; no other test does.
    split at h
    · obtain rfl := Option.some.inj h
      exact hk
    · obtain rfl := Option.some.inj h
      exact hk
    · cases h
  | .test t true, _, h => by simp [pointKeys?] at h
  | .all parts, _, h => by simp [pointKeys?] at h
  | .any parts, ks, h => mem_operandsOf_of_pointKeysOfAny? parts ks h

theorem mem_operandsOf_of_pointKeysOfAny? : ∀ (cs : List KeyCondition) (ks : List KeyOperand),
    pointKeysOfAny? cs = some ks → ∀ k ∈ ks, k ∈ operandsOf cs
  | [], ks, h => by
    obtain rfl := Option.some.inj h
    simp
  | c :: cs, ks, h => by
    obtain ⟨first, rest, hfirst, hrest, rfl⟩ := exists_of_pointKeysOfAny?_cons h
    intro k hk
    rw [operandsOf, List.mem_append]
    exact (List.mem_append.mp hk).imp (mem_operands_of_pointKeys? c first hfirst k)
      (mem_operandsOf_of_pointKeysOfAny? cs rest hrest k)

end

/-- A conjunction of conditions admits what all of them admit. -/
theorem admits_foldl_both (f : Expr → KeyCondition) (b : Bindings) (v : Value) (es : List Expr) :
    ∀ c : KeyCondition, (es.foldl (fun c e => c.both (f e)) c).admits b v =
      (c.admits b v && es.all fun e => (f e).admits b v) := by
  induction es with
  | nil => simp
  | cons e es ih =>
    intro c
    rw [List.foldl_cons, ih, admits_both, List.all_cons, Bool.and_assoc]

theorem mem_operands_foldl_both (f : Expr → KeyCondition) {k : KeyOperand} (es : List Expr) :
    ∀ c : KeyCondition, k ∈ (es.foldl (fun c e => c.both (f e)) c).operands →
      k ∈ c.operands ∨ ∃ e ∈ es, k ∈ (f e).operands := by
  induction es with
  | nil => intro c h; exact Or.inl h
  | cons e es ih =>
    intro c h
    rcases ih _ h with h | ⟨e', he', h⟩
    · rcases mem_operands_both h with h | h
      · exact Or.inl h
      · exact Or.inr ⟨e, by simp, h⟩
    · exact Or.inr ⟨e', by simp [he'], h⟩

end KeyCondition

/-- The operands that a leaf needs before it reads any row: the keys it seeks. -/
def Source.soughtKeys : Source → List KeyOperand
  | .seek _ key => [key]
  | .multiSeek _ keys => keys
  | _ => []

theorem Source.mem_operands_of_soughtKeys {leaf : Source} {k : KeyOperand}
    (hk : k ∈ leaf.soughtKeys) : k ∈ leaf.operands := by
  cases leaf <;> first | exact hk | cases hk

/-! ### Predicates over the rows of an index -/

namespace Expr

/-- A predicate over rows of some width: it reads columns that they have, and its operands are bound
to values in a set. -/
structure Ready (b : Bindings) (S : Set Value) (width : Nat) (e : Expr) : Prop where
  columns : ∀ c ∈ e.columnsRead, c < width
  operands : ∀ k ∈ e.operands, ∃ w ∈ S, k.value? b = some w

variable {b : Bindings} {S : Set Value} {width : Nat} {e : Expr}

theorem Ready.isSome (h : e.Ready b S width) : ∀ k ∈ e.operands, (k.value? b).isSome := by
  intro k hk
  obtain ⟨w, _, hw⟩ := h.operands k hk
  rw [hw]
  rfl

theorem Ready.valuesIn (h : e.Ready b S width) : KeyOperand.ValuesIn b S e.operands := by
  intro k hk w hw
  obtain ⟨w', hw', hval⟩ := h.operands k hk
  rwa [Option.some.inj (hw.symm.trans hval)]

/-- A predicate over rows of some width: it reads columns that they have, and its operands have
values in a set as far as they are bound. -/
structure Suits (b : Bindings) (S : Set Value) (width : Nat) (e : Expr) : Prop where
  columns : ∀ c ∈ e.columnsRead, c < width
  values : KeyOperand.ValuesIn b S e.operands

theorem Ready.suits (h : e.Ready b S width) : e.Suits b S width := ⟨h.columns, h.valuesIn⟩

theorem Ready.evaluable (h : e.Ready b S width) {row : Row} (hrow : row.length = width) :
    e.Evaluable row b :=
  ⟨fun c hc => hrow ▸ h.columns c hc, h.isSome⟩

theorem Ready.decided (h : e.Ready b S width) {row : Row} (hrow : row.length = width) :
    e.Decided row b :=
  ⟨_, (h.evaluable hrow).holds_eq⟩

theorem ReadsWithin.ready {part : Expr} (hpart : part.ReadsWithin e) (h : e.Ready b S width) :
    part.Ready b S width :=
  ⟨fun c hc => h.columns c (hpart.columns c hc), fun k hk => h.operands k (hpart.operands k hk)⟩

theorem ReadsWithin.suits {part : Expr} (hpart : part.ReadsWithin e) (h : e.Suits b S width) :
    part.Suits b S width :=
  ⟨fun c hc => h.columns c (hpart.columns c hc), fun k hk => h.values k (hpart.operands k hk)⟩

end Expr

/-! ### Rows of an index -/

namespace Index

/-- Rows as an index may hold them: as wide as its layout, with values in a set, and with key values
that are null or can be compared with their column. -/
structure Stores (S : Set Value) (i : Index) (rows : List Row) : Prop where
  width : ∀ row ∈ rows, row.length = i.columns.length
  values : ∀ row ∈ rows, ∀ v ∈ row, v ∈ S
  fits : ∀ row ∈ rows, ∀ k ∈ i.key, ∀ c, i.columns[k.column]? = some c →
    ∀ v, row[k.column]? = some v → v.fits c.type

variable {S : Set Value} {i : Index} {key : SortKey} {ty : ColumnType} {rows : List Row}

/-- Every row has a leading key, which can be compared with the type of the leading key. -/
theorem Stores.leading (h : i.Stores S rows) (hkey : i.leadingKey? = some key)
    (hty : i.leadingKeyType? = some ty) {row : Row} (hrow : row ∈ rows) :
    ∃ v ∈ S, row[key.column]? = some v ∧ v.fits ty := by
  rw [leadingKeyType?, hkey] at hty
  obtain ⟨_, hfirst, hty⟩ := Option.bind_eq_some_iff.mp hty
  obtain rfl := Option.some.inj hfirst
  obtain ⟨c, hc, hty⟩ := Option.bind_eq_some_iff.mp hty
  obtain rfl := Option.some.inj hty
  have hlt : key.column < row.length := by
    rw [h.width row hrow]
    exact (List.getElem?_eq_some_iff.mp hc).1
  have hget : row[key.column]? = some row[key.column] := List.getElem?_eq_getElem hlt
  have hmem : key ∈ i.key := List.mem_of_mem_head? hkey
  exact ⟨_, h.values row hrow _ (List.getElem_mem hlt), hget, h.fits row hrow key hmem c hc _ hget⟩

theorem Stores.ordersOn (hS : TransitiveOn S) (h : i.Stores S rows) (order : SortOrder) :
    OrdersOn order.le {row | row ∈ rows} := by
  refine ((order.compares_of_width S i.columns.length).ordersOn hS).mono fun row hrow => ?_
  exact ⟨h.width row hrow, h.values row hrow⟩

end Index

/-- A plan fails because a parameter is not bound. -/
def Plan.FailsUnbound (store : Store) (b : Bindings) (q : Plan) : Prop :=
  ∃ name, q.run store b = .error (.unboundParameter name)

/-! ### Single paths -/

namespace AccessPath

/-- The path through an index for some conjuncts, without its cost. -/
structure Through (conjuncts : List Expr) (key : SortKey) (ty : ColumnType) (p : AccessPath) :
    Prop where
  leadingKey : p.index.leadingKey? = some key
  leadingKeyType : p.index.leadingKeyType? = some ty
  condition_eq : p.condition = conjuncts.foldl
    (fun c e => c.both (Extraction.ofPredicate key.column ty e).condition) .always
  residual_eq : p.residual =
    conjuncts.filter fun e => !(Extraction.ofPredicate key.column ty e).isExact

theorem through_of_ofConjuncts? {model : CostModel} {expected : Bindings} {conjuncts : List Expr}
    {i : Index} {p : AccessPath} (h : ofConjuncts? model expected conjuncts i = some p) :
    p.index = i ∧ ∃ key ty, p.Through conjuncts key ty := by
  obtain ⟨key, hkey, h⟩ := Option.bind_eq_some_iff.mp h
  obtain ⟨ty, hty, h⟩ := Option.bind_eq_some_iff.mp h
  dsimp only at h
  split at h
  · cases h
  · obtain rfl := Option.some.inj h
    exact ⟨rfl, key, ty, hkey, hty, rfl, rfl⟩

theorem mem_of_cheapest? : ∀ {paths : List AccessPath} {p : AccessPath},
    cheapest? paths = some p → p ∈ paths := by
  intro paths
  induction paths with
  | nil => intro p h; cases h
  | cons q rest ih =>
    intro p h
    rw [cheapest?] at h
    split at h
    · simp [← Option.some.inj h]
    · rename_i q' hq'
      -- Either the first path or the cheapest of the others is kept.
      split at h
      · rw [← Option.some.inj h]
        exact List.mem_cons_of_mem q (ih hq')
      · simp [← Option.some.inj h]

/-- The best path for a conjunction goes through one of the indexes. -/
theorem through_of_best? {model : CostModel} {expected : Bindings} {indexes : List Index}
    {conjuncts : List Expr} {p : AccessPath} (h : best? model expected indexes conjuncts = some p) :
    p.index ∈ indexes ∧ ∃ key ty, p.Through conjuncts key ty := by
  obtain ⟨i, hi, hp⟩ := List.mem_filterMap.mp (mem_of_cheapest? h)
  obtain ⟨rfl, hthrough⟩ := through_of_ofConjuncts? hp
  exact ⟨hi, hthrough⟩

variable {conjuncts : List Expr} {key : SortKey} {ty : ColumnType} {p : AccessPath} {b : Bindings}
  {S : Set Value} {store : Tables} {rows : List Row}

/-- The condition and the conjuncts it leaves say what all conjuncts say. -/
theorem Through.admits_and_accepts (h : p.Through conjuncts key ty) {row : Row} {v : Value}
    (hrow : row[key.column]? = some v) :
    (p.condition.admits b v && p.residual.all (Expr.accepts row b)) =
      conjuncts.all (Expr.accepts row b) := by
  have hcover : ∀ e, Extraction.Covers row b v false e (Extraction.ofPredicate key.column ty e) :=
    fun e => Extraction.covers_ofPolar hrow ty false e
  rw [h.condition_eq, h.residual_eq, KeyCondition.admits_foldl_both, Bool.eq_iff_iff]
  simp only [KeyCondition.admits, Bool.true_and, Bool.and_eq_true, List.all_eq_true,
    List.mem_filter]
  constructor
  · rintro ⟨hadmits, hresidual⟩ e he
    -- What the condition does not settle is tested again; what it settles holds by the cover.
    cases hexact : (Extraction.ofPredicate key.column ty e).isExact with
    | false => exact hresidual e ⟨he, by simp [hexact]⟩
    | true =>
      obtain ⟨y, hy, heq⟩ := (hcover e).eval_of_isExact hexact
      rw [hadmits e he] at heq
      rw [Expr.accepts_of_eval hy]
      simpa using heq.symm
  · intro haccepts
    refine ⟨fun e he => ?_, fun e he => haccepts e he.1⟩
    have hacc := haccepts e he
    -- A conjunct that is accepted has a value, and the condition admits what makes it true.
    unfold Expr.accepts at hacc
    split at hacc
    · rename_i y hy
      exact (hcover e).admits_of_eval y hy hacc
    · cases hacc

/-- The operands of the condition are operands of the conjuncts, or `true`. -/
theorem Through.mem_operands (h : p.Through conjuncts key ty) {k : KeyOperand}
    (hk : k ∈ p.condition.operands) :
    (∃ e ∈ conjuncts, k ∈ e.operands) ∨ k = .literal (.bool true) := by
  rw [h.condition_eq] at hk
  rcases KeyCondition.mem_operands_foldl_both _ _ _ hk with hk | ⟨e, he, hk⟩
  · simp [KeyCondition.operands] at hk
  · exact (Extraction.operands_ofPolar key.column ty false e k hk).imp_left fun hk => ⟨e, he, hk⟩

theorem Through.operands_isSome {width : Nat} (h : p.Through conjuncts key ty)
    (hready : ∀ e ∈ conjuncts, e.Ready b S width) :
    ∀ k ∈ p.condition.operands, (k.value? b).isSome := by
  intro k hk
  rcases h.mem_operands hk with ⟨e, he, hk⟩ | rfl
  · exact (hready e he).isSome k hk
  · rfl

theorem Through.operands_valuesIn {width : Nat} (h : p.Through conjuncts key ty)
    (hsuits : ∀ e ∈ conjuncts, e.Suits b S width) :
    KeyOperand.ValuesIn b (Value.withOthers S) p.condition.operands := by
  intro k hk w hw
  rcases h.mem_operands hk with ⟨e, he, hk⟩ | rfl
  · exact Or.inl ((hsuits e he).values k hk w hw)
  · obtain rfl := Option.some.inj hw
    exact Or.inr (by simp [Value.cls])

/-- Reading the selected keys one by one reads the keys of the condition. -/
theorem contains_points_of_pointKeys? (hS : KeySpace S) {c : KeyCondition} {ks : List KeyOperand}
    (hks : c.pointKeys? = some ks) (hbound : ∀ k ∈ ks, (k.value? b).isSome)
    (hvalues : KeyOperand.ValuesIn b S c.operands) {v : Value} (hv : v ∈ S) (hty : v.fits ty) :
    (IntervalSet.points ((ks.filterMap (KeyOperand.value? b)).filter
      fun w => w.isComparableWith ty)).contains v = c.admits b v := by
  have hmem := KeyCondition.mem_operands_of_pointKeys? c ks hks
  have hin : ∀ w ∈ ks.filterMap (KeyOperand.value? b), w ∈ S :=
    KeyOperand.mem_of_mem_filterMap fun k hk => hvalues k (hmem k hk)
  rw [(KeyTest.answers_points hS hv hin hty).contains_eq,
    KeyCondition.admits_of_pointKeys? c ks hks hbound]

theorem mem_operands_of_source {k : KeyOperand} (hk : k ∈ p.source.operands) :
    k ∈ p.condition.operands := by
  unfold source at hk
  split at hk
  · next key hseek _ =>
    exact KeyCondition.mem_operands_of_pointKeys? _ _
      (KeyCondition.pointKeys?_of_seekKey? hseek) k hk
  · next keys hkeys _ => exact KeyCondition.mem_operands_of_pointKeys? _ _ hkeys k hk
  · split at hk <;> exact hk

/-- **The leaf of a path reads a set of keys that holds the keys its condition admits**, if the keys
that it seeks are bound. -/
theorem Through.exists_run_source (h : p.Through conjuncts key ty) (hS : KeySpace S)
    (hbound : ∀ k ∈ p.source.soughtKeys, (k.value? b).isSome)
    (hvalues : KeyOperand.ValuesIn b S p.condition.operands) (store : Store) :
    ∃ keys, p.source.run store b = store.scanKeys p.index keys ∧
      ∀ v ∈ S, v.fits ty → keys.contains v = p.condition.admits b v := by
  have hleading : p.index.leadingType = .ok ty := by rw [Index.leadingType, h.leadingKeyType]
  have hpoints : ∀ ks, p.condition.pointKeys? = some ks → (∀ k ∈ ks, (k.value? b).isSome) →
      ∀ v ∈ S, v.fits ty → (IntervalSet.points ((ks.filterMap (KeyOperand.value? b)).filter
        fun w => w.isComparableWith ty)).contains v = p.condition.admits b v :=
    fun ks hks hbound v hv hfits => contains_points_of_pointKeys? hS hks hbound hvalues hv hfits
  revert hbound
  unfold source
  split
  · next k hk _ =>
    -- A seek reads its key only if that can be compared with the column.
    intro hbound
    have hks := KeyCondition.pointKeys?_of_seekKey? hk
    obtain ⟨w, hw⟩ := Option.isSome_iff_exists.mp (hbound k (List.mem_singleton.mpr rfl))
    refine ⟨if w.isComparableWith ty then .points [w] else .empty, ?_, fun v hv hfits => ?_⟩
    · rw [Source.run, KeyOperand.resolve_eq_ok_iff.mpr hw, ok_bind, h.leadingKeyType]
      rfl
    · rw [← hpoints _ hks hbound v hv hfits]
      simp only [List.filterMap_cons, hw, List.filterMap_nil, List.filter_cons, List.filter_nil]
      split
      · rfl
      · rw [IntervalSet.contains_empty, eq_comm, Bool.eq_false_iff, ne_eq,
          IntervalSet.contains_points hS (by simp) hv]
        simp
  · next ks hks _ =>
    intro (hbound : ∀ k ∈ ks, (k.value? b).isSome)
    refine ⟨_, ?_, hpoints ks hks hbound⟩
    rw [Source.run, hleading, ok_bind, KeyOperand.resolveAll_eq hbound]
    rfl
  · intro _
    refine ⟨p.condition.keys ty b, ?_, fun v hv hfits =>
      (KeyCondition.answers_keys hS hv hfits _ hvalues).contains_eq⟩
    split <;> rw [Source.run, hleading] <;> rfl

/-- A leaf that seeks an unbound key fails, whatever the store holds. -/
theorem Through.source_fails (h : p.Through conjuncts key ty)
    (hbound : ¬ ∀ k ∈ p.source.soughtKeys, (k.value? b).isSome) (store : Store) :
    ∃ name, p.source.run store b = .error (.unboundParameter name) := by
  revert hbound
  unfold source
  split
  · next k _ _ =>
    -- A seek resolves its key before it reads.
    intro (hbound : ¬ ∀ k' ∈ [k], (k'.value? b).isSome)
    obtain ⟨name, hname⟩ :=
      KeyOperand.exists_unbound_of_resolve fun hk => hbound (by simpa using hk)
    exact ⟨name, by rw [Source.run, hname, error_bind]⟩
  · next ks _ _ =>
    -- A seek for several keys resolves all of them.
    intro (hbound : ¬ ∀ k ∈ ks, (k.value? b).isSome)
    obtain ⟨name, hname⟩ := KeyOperand.exists_unbound_of_resolveAll hbound
    exact ⟨name, by rw [Source.run, Index.leadingType, h.leadingKeyType, ok_bind,
      hname, error_bind]⟩
  · -- A range seeks no key, so none of its keys can be unbound.
    intro hbound
    refine absurd (fun k hk => ?_) hbound
    split at hk <;> cases hk

/-- Whether a path reads a row: its condition admits the leading key of the row. -/
def reads (b : Bindings) (row : Row) (p : AccessPath) : Bool :=
  p.index.leadingKey?.any fun key => row[key.column]?.any (p.condition.admits b)

theorem Through.run_source (h : p.Through conjuncts key ty) (hS : TransitiveOn S)
    (htable : store.table? p.index = some rows) (hstores : p.index.Stores S rows)
    (hsuits : ∀ e ∈ conjuncts, e.Suits b S p.index.columns.length)
    (hbound : ∀ k ∈ p.source.soughtKeys, (k.value? b).isSome) :
    p.source.run store b = .ok ((p.index.key.sort rows).filter fun row => p.reads b row) := by
  obtain ⟨keys, hrun, hkeys⟩ :=
    h.exists_run_source hS.keySpace hbound (h.operands_valuesIn hsuits) store
  rw [← toOption_eq_some_iff, hrun, store.toOption_scanKeys h.leadingKey, htable, Option.map_some]
  refine congrArg some (List.filter_congr fun row hrow => ?_)
  obtain ⟨v, hv, hget, hfits⟩ :=
    hstores.leading h.leadingKey h.leadingKeyType (SortOrder.mem_sort.mp hrow)
  simp [reads, h.leadingKey, hget, hkeys v (Or.inl hv) hfits]

/-- The plan of a path tries the conjuncts left over on the rows of its leaf. -/
theorem run_toPlan (p : AccessPath) (store : Store) (b : Bindings) : p.toPlan.run store b =
    (do keepRows (fun row => Expr.holdAll row b p.residual) (← p.source.run store b)) := by
  unfold toPlan
  cases hc : Expr.conjunction p.residual with
  | some predicate =>
    simp only [Plan.run, Unary.run, Expr.holds_conjunction hc]
  | none =>
    -- Without a residual there is no filter, and keeping every row changes nothing.
    rw [Plan.run, Expr.eq_nil_of_conjunction hc]
    cases p.source.run store b with
    | error f => rfl
    | ok rows =>
      have hkeep : keepRows (fun row => Expr.holdAll row b []) rows =
          .ok (rows.filter fun _ => true) :=
        keepRows_eq rows fun _ _ => rfl
      rw [ok_bind, hkeep, List.filter_true]

theorem index?_source (p : AccessPath) : p.source.index? = some p.index := by
  unfold source
  split
  · rfl
  · rfl
  · split <;> rfl

theorem toOption_run_of_no_table (htable : store.table? p.index = none) :
    (p.toPlan.run store b).toOption = none := by
  rw [run_toPlan]
  cases hrun : p.source.run store b with
  | error f => rfl
  | ok rows =>
    obtain ⟨table, hsome, -⟩ := Source.sublist_table_of_run p.index?_source hrun
    rw [htable] at hsome
    cases hsome

/-- On a row that a path reads, the conjuncts left over decide as all conjuncts do: those that the
condition settles hold there. -/
theorem Through.holdAll_residual (h : p.Through conjuncts key ty) {row : Row}
    (hreads : p.reads b row) : Expr.holdAll row b p.residual = Expr.holdAll row b conjuncts := by
  simp only [reads, h.leadingKey, Option.any_some, Option.any_eq_true] at hreads
  obtain ⟨v, hrow, hadmits⟩ := hreads
  rw [h.condition_eq, KeyCondition.admits_foldl_both, Bool.and_eq_true, List.all_eq_true] at hadmits
  rw [h.residual_eq]
  refine Expr.holdAll_filter fun e he hexact => ?_
  have hcover : Extraction.Covers row b v false e (Extraction.ofPredicate key.column ty e) :=
    Extraction.covers_ofPolar hrow ty false e
  obtain ⟨y, hy, heq⟩ := hcover.eval_of_isExact (by simpa using hexact)
  have htrue : y.isTrue = true := by simpa [hadmits.2 e he] using heq.symm
  rw [Expr.holds, hy, ok_bind, htrue]
  rfl

/-- **A path tries all its conjuncts on the rows that it reads, in the key order of its index.** -/
theorem Through.run_eq (h : p.Through conjuncts key ty) (hS : TransitiveOn S)
    (htable : store.table? p.index = some rows) (hstores : p.index.Stores S rows)
    (hsuits : ∀ e ∈ conjuncts, e.Suits b S p.index.columns.length)
    (hbound : ∀ k ∈ p.source.soughtKeys, (k.value? b).isSome) :
    p.toPlan.run store b = keepRows (fun row => Expr.holdAll row b conjuncts)
      ((p.index.key.sort rows).filter fun row => p.reads b row) := by
  rw [run_toPlan, h.run_source hS htable hstores hsuits hbound, ok_bind]
  exact keepRows_congr fun row hrow => h.holdAll_residual (List.mem_filter.mp hrow).2

/-- A path comes to an answer over some rows: the keys that it seeks are bound, and its conjuncts
have an answer on every row that it reads. -/
structure Answers (b : Bindings) (rows : List Row) (conjuncts : List Expr) (p : AccessPath) :
    Prop where
  bound : ∀ k ∈ p.source.soughtKeys, (k.value? b).isSome
  decided : ∀ row ∈ rows, p.reads b row → ∃ x, Expr.holdAll row b conjuncts = .ok x

/-- A row that satisfies all conjuncts of a path is read. -/
theorem Through.reads_of_accepts (h : p.Through conjuncts key ty) {row : Row} {v : Value}
    (hrow : row[key.column]? = some v) (haccepts : conjuncts.all (Expr.accepts row b)) :
    p.reads b row := by
  rw [← h.admits_and_accepts hrow, Bool.and_eq_true] at haccepts
  simp [reads, h.leadingKey, hrow, haccepts.1]

/-- **A path that comes to an answer reads the rows that satisfy all its conjuncts, in the key order
of its index.** -/
theorem Through.run_of_answers (h : p.Through conjuncts key ty) (hS : TransitiveOn S)
    (htable : store.table? p.index = some rows) (hstores : p.index.Stores S rows)
    (hsuits : ∀ e ∈ conjuncts, e.Suits b S p.index.columns.length)
    (hanswers : p.Answers b rows conjuncts) :
    p.toPlan.run store b =
      .ok ((p.index.key.sort rows).filter fun row => conjuncts.all (Expr.accepts row b)) := by
  -- Every row that the source reads has an answer, so testing the rows is filtering them.
  have hkeep : keepRows (fun row => Expr.holdAll row b conjuncts)
      ((p.index.key.sort rows).filter fun row => p.reads b row) =
      .ok (((p.index.key.sort rows).filter fun row => p.reads b row).filter
        fun row => conjuncts.all (Expr.accepts row b)) := by
    refine keepRows_eq _ fun row hrow => ?_
    obtain ⟨hmem, hreads⟩ := List.mem_filter.mp hrow
    obtain ⟨x, hx⟩ := hanswers.decided row (SortOrder.mem_sort.mp hmem) hreads
    rw [hx, Expr.all_accepts_of_holdAll hx]
  rw [h.run_eq hS htable hstores hsuits hanswers.bound, hkeep, List.filter_filter]
  refine congrArg Except.ok (List.filter_congr fun row hrow => ?_)
  obtain ⟨v, _, hget, _⟩ :=
    hstores.leading h.leadingKey h.leadingKeyType (SortOrder.mem_sort.mp hrow)
  -- A row that is accepted is among those that the source reads.
  cases haccepts : conjuncts.all (Expr.accepts row b) with
  | false => rfl
  | true => rw [h.reads_of_accepts hget haccepts]; rfl

/-- **A path that comes to no answer fails at an unbound parameter**: a key that it seeks, or one
that a conjunct asks for on a row that it reads. -/
theorem Through.fails_of_not_answers (h : p.Through conjuncts key ty) (hS : TransitiveOn S)
    (htable : store.table? p.index = some rows) (hstores : p.index.Stores S rows)
    (hsuits : ∀ e ∈ conjuncts, e.Suits b S p.index.columns.length)
    (hanswers : ¬ p.Answers b rows conjuncts) : p.toPlan.FailsUnbound store b := by
  by_cases hbound : ∀ k ∈ p.source.soughtKeys, (k.value? b).isSome
  · -- The source comes to its rows, and a conjunct fails on one of them.
    have hundecided : ¬ ∀ row ∈ (p.index.key.sort rows).filter fun row => p.reads b row,
        ∃ x, Expr.holdAll row b conjuncts = .ok x := by
      intro hall
      refine hanswers ⟨hbound, fun row hrow hreads => hall row ?_⟩
      exact List.mem_filter.mpr ⟨SortOrder.mem_sort.mpr hrow, hreads⟩
    obtain ⟨row, hrow, f, hf, hkeep⟩ := exists_error_of_keepRows hundecided
    obtain ⟨e, he, hf⟩ := Expr.exists_error_of_holdAll hf
    have hwidth := hstores.width row (SortOrder.mem_sort.mp (List.mem_filter.mp hrow).1)
    obtain ⟨name, rfl⟩ := Expr.exists_unbound_of_eval (hwidth ▸ (hsuits e he).columns) hf
    exact ⟨name, by rw [h.run_eq hS htable hstores hsuits hbound, hkeep]⟩
  · -- The source itself fails.
    obtain ⟨name, hname⟩ := h.source_fails hbound store
    exact ⟨name, by rw [run_toPlan, hname, error_bind]⟩

/-- A path whose conjuncts are ready comes to an answer. -/
theorem Through.answers_of_ready (h : p.Through conjuncts key ty) {width : Nat}
    (hwidth : ∀ row ∈ rows, row.length = width) (hready : ∀ e ∈ conjuncts, e.Ready b S width) :
    p.Answers b rows conjuncts where
  bound := fun k hk =>
    h.operands_isSome hready k (mem_operands_of_source (Source.mem_operands_of_soughtKeys hk))
  decided := fun row hrow _ => Expr.exists_holdAll fun e he =>
    (hready e he).decided (hwidth row hrow)

theorem header_source (p : AccessPath) : p.source.header = p.index.header :=
  Source.header_of_index? p.index?_source

theorem header_toPlan (p : AccessPath) : p.toPlan.header = p.index.header := by
  unfold toPlan
  cases Expr.conjunction p.residual <;> exact p.header_source

end AccessPath

/-! ### Unions of paths -/

/-- A plan gives the rows of a table that pass a test, each once and in some order. -/
def Plan.Gives (store : Store) (b : Bindings) (rows : List Row) (test : Row → Bool) (q : Plan) :
    Prop :=
  ∃ out, q.run store b = .ok out ∧ (∀ row, row ∈ out ↔ row ∈ rows ∧ test row) ∧
    out.Pairwise fun a c => ¬ Row.keyEq a c

namespace Plan.Gives

variable {store : Store} {b : Bindings} {rows : List Row} {test test' : Row → Bool} {q q' : Plan}

theorem nodup {out : List Row} (h : out.Pairwise fun a c => ¬ Row.keyEq a c) : out.Nodup := by
  refine h.imp fun {a c} hne heq => hne ?_
  rw [heq]
  exact Row.keyEq_self c

/-- The union of two plans over the same table gives the rows that pass either test. -/
theorem union (hrows : rows.Pairwise fun a c => ¬ Row.keyEq a c) (h : q.Gives store b rows test)
    (h' : q'.Gives store b rows test') :
    (Plan.binary .union q q').Gives store b rows fun row => test row || test' row := by
  obtain ⟨out, hrun, hmem, -⟩ := h
  obtain ⟨out', hrun', hmem', -⟩ := h'
  have htold := Row.eq_of_keyEq hrows
  refine ⟨distinctRows (out ++ out'), ?_, fun row => ?_, pairwise_distinctRows _⟩
  · simp only [Plan.run, hrun, ok_bind, Binary.run, hrun', pure_eq_ok]
  · -- Rows of one table with equal keys are the same row, so removing duplicates by key drops none
    -- that differs from those kept.
    have hsub : ∀ a ∈ out ++ out', a ∈ rows := by
      intro a ha
      rcases List.mem_append.mp ha with ha | ha
      · exact ((hmem a).mp ha).1
      · exact ((hmem' a).mp ha).1
    rw [mem_distinctRows fun a ha c hc => htold a (hsub a ha) c (hsub c hc), List.mem_append, hmem,
      hmem', ← and_or_left, Bool.or_eq_true]

/-- The rows are those of the table, in another order. -/
theorem exists_perm (hrows : rows.Pairwise fun a c => ¬ Row.keyEq a c)
    (h : q.Gives store b rows test) :
    ∃ out, q.run store b = .ok out ∧ out.Perm (rows.filter test) := by
  obtain ⟨out, hrun, hmem, hout⟩ := h
  refine ⟨out, hrun, (List.perm_ext_iff_of_nodup (nodup hout) ((nodup hrows).filter _)).mpr ?_⟩
  intro row
  rw [hmem, List.mem_filter]

end Plan.Gives

/-- A plan gives the rows of a table that pass a test if some condition is met, and fails at an
unbound parameter otherwise. -/
structure Plan.GivesIf (store : Store) (b : Bindings) (rows : List Row) (met : Prop)
    (test : Row → Bool) (q : Plan) : Prop where
  gives : met → q.Gives store b rows test
  fails : ¬ met → q.FailsUnbound store b

namespace Plan.GivesIf

variable {store : Store} {b : Bindings} {rows : List Row} {met met' : Prop}
  {test test' : Row → Bool} {q q' : Plan}

theorem union (hrows : rows.Pairwise fun a c => ¬ Row.keyEq a c)
    (h : q.GivesIf store b rows met test) (h' : q'.GivesIf store b rows met' test') :
    (Plan.binary .union q q').GivesIf store b rows (met ∧ met') fun row =>
      test row || test' row where
  gives := fun hmet => (h.gives hmet.1).union hrows (h'.gives hmet.2)
  fails := fun hmet => by
    by_cases hleft : met
    · obtain ⟨out, hrun, -⟩ := h.gives hleft
      obtain ⟨name, hname⟩ := h'.fails fun hright => hmet ⟨hleft, hright⟩
      exact ⟨name, by simp only [Plan.run, hrun, ok_bind, Binary.run, hname, error_bind]⟩
    · obtain ⟨name, hname⟩ := h.fails hleft
      exact ⟨name, by rw [Plan.run, hname, error_bind]⟩

/-- Unions of paths, one for each of several clauses. -/
theorem foldl_union (hrows : rows.Pairwise fun a c => ¬ Row.keyEq a c) {clauses : List (List Expr)}
    {paths : List AccessPath} (hpaths : List.Forall₂ (fun clause path =>
      path.toPlan.GivesIf store b rows (path.Answers b rows clause)
        fun row => clause.all (Expr.accepts row b)) clauses paths) :
    ∀ (q : Plan) (met : Prop) (test : Row → Bool), q.GivesIf store b rows met test →
      (paths.foldl (fun p path => .binary .union p path.toPlan) q).GivesIf store b rows
        (met ∧ List.Forall₂ (fun clause path => path.Answers b rows clause) clauses paths)
        fun row => test row || clauses.any fun clause => clause.all (Expr.accepts row b) := by
  -- The plan built so far is general: each step joins one more path to it.
  induction hpaths with
  | nil =>
    intro q met test h
    simpa using h
  | cons hpath _ ih =>
    intro q met test h
    have hstep := ih _ _ _ (h.union hrows hpath)
    simpa only [List.foldl_cons, List.any_cons, Bool.or_assoc, List.forall₂_cons,
      and_assoc] using hstep

end Plan.GivesIf

theorem forall₂_of_mapM {α β : Type} {f : α → Option β} : ∀ {xs : List α} {ys : List β},
    xs.mapM f = some ys → List.Forall₂ (fun x y => f x = some y) xs ys := by
  intro xs
  induction xs with
  | nil =>
    intro ys h
    simp at h
    subst h
    exact .nil
  | cons x xs ih =>
    intro ys h
    rw [List.mapM_cons] at h
    obtain ⟨y, hy, h⟩ := Option.bind_eq_some_iff.mp h
    obtain ⟨ys', hys', h⟩ := Option.bind_eq_some_iff.mp h
    obtain rfl := Option.some.inj h
    exact .cons hy (ih hys')

end QueryPlanner
