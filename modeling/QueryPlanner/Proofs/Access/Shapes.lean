import QueryPlanner.Proofs.Access.Paths

/-!
# Shapes of access agree

A condition is read through its intervals, or key by key where it selects single keys.  A single
test that selects keys has the very set that its keys are looked up in.  A union of such tests
merges their sets one after the other, which holds the same keys as merging them all at once; what
is nested in it, or selected twice, makes no difference.  That a condition forms one interval is a
matter of counting: merging never makes intervals, and two sets meet in no more than one interval
for each pair.

## Main definitions

* `Value.isSought` — a key is equal to one of several values that can be compared with it.
* `Store.KeysIn` — the leading keys that an index reads lie in a set.

## Main results

* `KeyTest.keys_of_pointKeys?` — the keys of a test that selects single keys.
* `KeyCondition.answers_of_pointKeys?` — **a condition that selects single keys holds the values of
  its operands**, whatever the keys are.
* `IntervalSet.length_ofIntervals_le`, `IntervalSet.length_intersect_le` — how many intervals there
  are.
* `KeyCondition.run_eq_run_rangeSet` — **looking keys up gives the rows that the intervals give**,
  and a condition that forms one interval has one at most.
-/

namespace QueryPlanner

open Value (TransitiveOn KeySpace)

/-- A key is equal to one of several values that can be compared with the column. -/
def Value.isSought (ty : ColumnType) (ws : List Value) (v : Value) : Bool :=
  ws.any fun w => w.isComparableWith ty && w.keyCmp v == .eq

/-! ### Keys looked up one by one -/

namespace IntervalSet

@[simp] theorem points_nil : points [] = empty := by
  simp [points, ofIntervals, merge, empty]

theorem answers_points {S : Set Value} (hS : KeySpace S) {v : Value} (hv : v ∈ S) (ty : ColumnType)
    {ws : List Value} (hws : ∀ w ∈ ws, w ∈ S) :
    Answers S v (.points (ws.filter fun w => w.isComparableWith ty)) (v.isSought ty ws) := by
  refine .ofIntervals hS hv (within_map_point fun w hw => hws w (List.mem_filter.mp hw).1) ?_
  simp [contains_point, Value.isSought, and_assoc]

/-- An equality has the set in which its key is looked up. -/
theorem comparing_eq_points (ty : ColumnType) (w : Value) :
    (if w.isComparableWith ty then comparing .eq w else empty) =
      points ([w].filter fun w => w.isComparableWith ty) := by
  by_cases hcomp : w.isComparableWith ty
  · simp only [if_pos hcomp, List.filter_cons, List.filter_nil]
    rfl
  · simp [hcomp]

end IntervalSet

variable {ty : ColumnType} {b : Bindings} {S : Set Value} {v : Value}

/-- **A test that selects single keys has the set in which they are looked up.** -/
theorem KeyTest.keys_of_pointKeys? {t : KeyTest} {ks : List KeyOperand} (h : t.pointKeys? = some ks)
    (hbound : ∀ k ∈ ks, (k.value? b).isSome) : t.keys ty b false =
      .points ((ks.filterMap (KeyOperand.value? b)).filter fun w => w.isComparableWith ty) := by
  unfold pointKeys? at h
  split at h
  · rename_i k
    obtain rfl := Option.some.inj h
    obtain ⟨w, hw⟩ := Option.isSome_iff_exists.mp (hbound k (by simp))
    have hvalues : [k].filterMap (KeyOperand.value? b) = [w] := by simp [hw]
    rw [hvalues, ← IntervalSet.comparing_eq_points]
    simp [keys, exactKeys?, hw]
  · obtain rfl := Option.some.inj h
    simp [keys, exactKeys?, KeyOperand.mapM_value?_eq hbound]
  · cases h

namespace KeyCondition

mutual

/-- **A condition that selects single keys holds the values of its operands.** -/
theorem answers_of_pointKeys? (hS : KeySpace S) (hv : v ∈ S) : ∀ (c : KeyCondition)
    (ks : List KeyOperand), c.pointKeys? = some ks → (∀ k ∈ ks, (k.value? b).isSome) →
    KeyOperand.ValuesIn b S ks →
    IntervalSet.Answers S v (c.keys ty b) (v.isSought ty (ks.filterMap (KeyOperand.value? b)))
  | .always, _, h, _, _ => by simp [pointKeys?] at h
  | .never, _, h, _, _ => by simp [pointKeys?] at h
  | .test t false, ks, h, hbound, hin => by
    rw [keys, KeyTest.keys_of_pointKeys? h hbound]
    exact IntervalSet.answers_points hS hv ty (KeyOperand.mem_of_mem_filterMap hin)
  | .test t true, _, h, _, _ => by simp [pointKeys?] at h
  | .all parts, _, h, _, _ => by simp [pointKeys?] at h
  | .any parts, ks, h, hbound, hin =>
    answers_of_pointKeysOfAny? hS hv parts ks h hbound hin .empty false .empty

/-- What is merged into a set holds the operands besides what the set holds. -/
theorem answers_of_pointKeysOfAny? (hS : KeySpace S) (hv : v ∈ S) : ∀ (cs : List KeyCondition)
    (ks : List KeyOperand), pointKeysOfAny? cs = some ks → (∀ k ∈ ks, (k.value? b).isSome) →
    KeyOperand.ValuesIn b S ks → ∀ (s : IntervalSet) (x : Bool), IntervalSet.Answers S v s x →
    IntervalSet.Answers S v (keysOfAny ty b s cs)
      (x || v.isSought ty (ks.filterMap (KeyOperand.value? b)))
  | [], ks, h, _, _, s, x, hs => by
    obtain rfl := Option.some.inj h
    simpa [keysOfAny, Value.isSought] using hs
  | c :: cs, ks, h, hbound, hin, s, x, hs => by
    obtain ⟨first, rest, hfirst, hrest, rfl⟩ := exists_of_pointKeysOfAny?_cons h
    -- The induction is on the parts, with the keys of the earlier ones gathered in the set.
    have hc := answers_of_pointKeys? hS hv c first hfirst
      (fun k hk => hbound k (by simp [hk])) fun k hk => hin k (by simp [hk])
    have hcs := answers_of_pointKeysOfAny? hS hv cs rest hrest (fun k hk => hbound k (by simp [hk]))
      (fun k hk => hin k (by simp [hk])) _ _ (hs.union hS hv hc)
    rw [keysOfAny, List.filterMap_append, Value.isSought, List.any_append, ← Bool.or_assoc]
    exact hcs

end

end KeyCondition

/-! ### Counting intervals -/

namespace IntervalSet

theorem length_absorb_le : ∀ (rest : List Interval) (last : Interval),
    (absorb last rest).length ≤ rest.length + 1 := by
  intro rest
  induction rest with
  | nil => intro last; exact Nat.le_refl 1
  | cons next rest ih =>
    intro last
    rw [absorb]
    split
    · -- Two intervals become one.
      exact Nat.le_succ_of_le (ih _)
    · exact Nat.succ_le_succ (ih next)

/-- **Merging makes no intervals.** -/
theorem length_ofIntervals_le (intervals : List Interval) :
    (ofIntervals intervals).intervals.length ≤ intervals.length := by
  have hparts : (sortedParts intervals).length ≤ intervals.length := by
    rw [sortedParts, List.length_mergeSort]
    exact List.length_filter_le _ _
  refine Nat.le_trans ?_ hparts
  change (merge (sortedParts intervals)).length ≤ _
  cases sortedParts intervals with
  | nil => exact Nat.le_refl 0
  | cons first rest => exact length_absorb_le rest first

/-- Two sets meet in no more than one interval for each pair. -/
theorem length_intersect_le (s t : IntervalSet) :
    (s.intersect t).intervals.length ≤ s.intervals.length * t.intervals.length := by
  refine Nat.le_trans (length_ofIntervals_le _) (Nat.le_of_eq ?_)
  simp [List.length_flatMap]

theorem length_comparing_le {op : CompareOp} (hop : op ≠ .ne) (w : Value) :
    (comparing op w).intervals.length ≤ 1 := by
  cases op with
  | ne => exact absurd rfl hop
  | _ => exact length_ofIntervals_le [_]

end IntervalSet

theorem KeyTest.length_keys_le {t : KeyTest} (h : t.isInterval) (ty : ColumnType) (b : Bindings) :
    (t.keys ty b false).intervals.length ≤ 1 := by
  have hexact : ∀ s, t.exactKeys? ty b = some s → s.intervals.length ≤ 1 := by
    intro s hs
    cases t with
    | compare op operand =>
      obtain ⟨w, _, hs⟩ := Option.bind_eq_some_iff.mp hs
      obtain rfl := Option.some.inj hs
      split
      · exact IntervalSet.length_comparing_le (by simpa [isInterval] using h) w
      · exact Nat.zero_le 1
    | oneOf operands => cases h
    | isNull =>
      obtain rfl := Option.some.inj hs
      exact IntervalSet.length_ofIntervals_le [_]
    | startsWith operand =>
      obtain ⟨w, _, hs⟩ := Option.bind_eq_some_iff.mp hs
      split at hs
      · obtain rfl := Option.some.inj hs
        exact IntervalSet.length_ofIntervals_le [_]
      · obtain rfl := Option.some.inj hs
        exact Nat.zero_le 1
  unfold keys
  split
  · rename_i s hs
    exact hexact s hs
  · -- An unbound parameter leaves every key, which is one interval.
    exact Nat.le_refl 1

namespace KeyCondition

mutual

/-- **A condition that forms one interval has one at most**, bound or not. -/
theorem length_keys_le (ty : ColumnType) (b : Bindings) : ∀ c : KeyCondition, c.isInterval →
    (c.keys ty b).intervals.length ≤ 1
  | .always, _ => Nat.le_refl 1
  | .never, _ => Nat.zero_le 1
  | .test t false, h => KeyTest.length_keys_le (by simpa [isInterval] using h) ty b
  | .test t true, h => by simp [isInterval] at h
  | .all parts, h => length_keysOfAll_le ty b parts h .full (Nat.le_refl 1)
  | .any parts, h => by simp [isInterval] at h

theorem length_keysOfAll_le (ty : ColumnType) (b : Bindings) : ∀ cs : List KeyCondition,
    areIntervals cs → ∀ s : IntervalSet, s.intervals.length ≤ 1 →
    (keysOfAll ty b s cs).intervals.length ≤ 1
  | [], _, _, hs => hs
  | c :: cs, h, s, hs => by
    obtain ⟨hc, hcs⟩ := Bool.and_eq_true_iff.mp h
    refine length_keysOfAll_le ty b cs hcs _ ?_
    exact Nat.le_trans (IntervalSet.length_intersect_le _ _)
      (Nat.mul_le_mul hs (length_keys_le ty b c hc))

end

end KeyCondition

/-! ### Reading an index -/

namespace Store

/-- The leading keys of the rows that an index reads lie in a set. -/
def KeysIn (store : Store) (index : Index) (S : Set Value) : Prop :=
  ∀ rows, store.scan index = .ok rows → ∀ key, index.leadingKey? = some key →
    ∀ row ∈ rows, ∀ v, row[key.column]? = some v → v ∈ S

/-- Sets that hold the same keys of an index read the same rows of it. -/
theorem scanKeys_congr {store : Store} {index : Index} (hkeys : store.KeysIn index S)
    {s t : IntervalSet} (h : ∀ v ∈ S, s.contains v = t.contains v) :
    store.scanKeys index s = store.scanKeys index t := by
  unfold scanKeys
  cases hkey : index.leadingKey? with
  | none => rfl
  | some key =>
    cases hscan : store.scan index with
    | error fault => rfl
    | ok rows =>
      simp only [ok_bind]
      refine congrArg Except.ok (List.filter_congr fun row hrow => ?_)
      cases hv : row[key.column]? with
      | none => rfl
      | some v => exact h v (hkeys rows hscan key hkey row hrow v hv)

end Store

namespace KeyCondition

variable {index : Index} {store : Store}

theorem run_rangeSet (hty : index.leadingKeyType? = some ty) (c : KeyCondition) :
    (Source.rangeSet index c).run store b = store.scanKeys index (c.keys ty b) := by
  rw [Source.run, Index.leadingType, hty]
  rfl

theorem run_seek_of_seekKey? (hty : index.leadingKeyType? = some ty) {c : KeyCondition}
    {k : KeyOperand} (h : c.seekKey? = some k) (hbound : ∀ o ∈ c.operands, (o.value? b).isSome) :
    (Source.seek index k).run store b = (Source.rangeSet index c).run store b := by
  rw [run_rangeSet hty]
  unfold seekKey? at h
  split at h
  · obtain rfl := Option.some.inj h
    obtain ⟨w, hw⟩ := Option.isSome_iff_exists.mp (hbound _ (List.mem_singleton.mpr rfl))
    rw [Source.run, KeyOperand.resolve_eq_ok_iff.mpr hw, ok_bind, hty]
    simp only [keys, KeyTest.keys, KeyTest.exactKeys?, hw]
    rfl
  · cases h

theorem run_multiSeek_of_pointKeys? (hty : index.leadingKeyType? = some ty) {c : KeyCondition}
    {ks : List KeyOperand} (h : c.pointKeys? = some ks)
    (hbound : ∀ o ∈ c.operands, (o.value? b).isSome) (hS : TransitiveOn S)
    (hvalues : KeyOperand.ValuesIn b S c.operands) (hkeys : store.KeysIn index S) :
    (Source.multiSeek index ks).run store b = (Source.rangeSet index c).run store b := by
  have hmem := mem_operands_of_pointKeys? c ks h
  have hbound' : ∀ k ∈ ks, (k.value? b).isSome := fun k hk => hbound k (hmem k hk)
  have hin : KeyOperand.ValuesIn b (Value.withOthers S) ks :=
    fun k hk w hw => Or.inl (hvalues k (hmem k hk) w hw)
  have hmulti : (Source.multiSeek index ks).run store b = store.scanKeys index
      (.points ((ks.filterMap (KeyOperand.value? b)).filter fun w => w.isComparableWith ty)) := by
    rw [Source.run, Index.leadingType, hty, KeyOperand.resolveAll_eq hbound']
    rfl
  rw [hmulti, run_rangeSet hty]
  refine Store.scanKeys_congr hkeys fun v hv => ?_
  have hv' : v ∈ Value.withOthers S := Or.inl hv
  -- Both sets hold the values of the operands that can be compared with the column.
  rw [(answers_of_pointKeys? hS.keySpace hv' c ks h hbound' hin).contains_eq,
    (IntervalSet.answers_points hS.keySpace hv' ty
      (KeyOperand.mem_of_mem_filterMap hin)).contains_eq]

/-- **Looking keys up gives the rows that the intervals of a condition give**: the one key of an
equality, and all keys of a condition that selects single ones, if the key order is transitive on
the keys at hand. A condition that forms one interval has one at most, whatever the type and the
parameters are. -/
theorem run_eq_run_rangeSet (c : KeyCondition) :
    (∀ index ty store k b, index.leadingKeyType? = some ty → c.seekKey? = some k →
      (∀ o ∈ c.operands, (o.value? b).isSome) →
      (Source.seek index k).run store b = (Source.rangeSet index c).run store b) ∧
    (∀ index ty store ks b S, index.leadingKeyType? = some ty → c.pointKeys? = some ks →
      (∀ o ∈ c.operands, (o.value? b).isSome) → TransitiveOn S →
      KeyOperand.ValuesIn b S c.operands → store.KeysIn index S →
      (Source.multiSeek index ks).run store b = (Source.rangeSet index c).run store b) ∧
    (c.isInterval → ∀ ty b, (c.keys ty b).intervals.length ≤ 1) := by
  refine ⟨?_, ?_, fun h ty b => length_keys_le ty b c h⟩
  · intro index ty store k b hty hk hbound
    exact run_seek_of_seekKey? hty hk hbound
  · intro index ty store ks b S hty hks hbound hS hvalues hkeys
    exact run_multiSeek_of_pointKeys? hty hks hbound hS hvalues hkeys

end KeyCondition

namespace Sample

/-- Shelves by number; one has none. -/
def shelves : Index := .primary 1 "Shelves" [⟨"number", .int32, true⟩] [.asc 0]

/-- The shelves as they were stored, two of them with one number. -/
def shelfTables : Tables :=
  Tables.empty.insertTable shelves [[.int32 3], [.null], [.int32 1], [.int32 2], [.int32 3]]

/-- The number that two shelves have. -/
def shelfBinding : Bindings := Bindings.empty.insert "number" (.int32 3)

/-- The shelves with one number. -/
def atNumber : KeyCondition := .test (.compare .eq (.parameter "number")) false

/-- A union in a union, with a key that is given twice, null, and a text among numbers. -/
def atNumbers : KeyCondition :=
  .any [atNumber, .any [.test (.oneOf [.literal .null, .literal (.text "2"), .literal (.int32 1),
    .literal (.int32 3)]) false]]

/-- The numbers from one to below a parameter, a single interval whatever is bound. -/
def fromOneBelowNumber : KeyCondition :=
  .all [.test (.compare .ge (.literal (.int32 1))) false,
    .test (.compare .lt (.parameter "number")) false]

/-- One shelf number is looked up by a seek, and the numbers of the nested union by several; the
range has one interval under any parameters. -/
theorem run_eq_run_rangeSet_shelves :
    (Source.seek shelves (.parameter "number")).run shelfTables shelfBinding =
        (Source.rangeSet shelves atNumber).run shelfTables shelfBinding ∧
      (Source.multiSeek shelves [.parameter "number", .literal .null, .literal (.text "2"),
          .literal (.int32 1), .literal (.int32 3)]).run shelfTables shelfBinding =
        (Source.rangeSet shelves atNumbers).run shelfTables shelfBinding ∧
      ∀ ty b, (fromOneBelowNumber.keys ty b).intervals.length ≤ 1 := by
  have hbound : ∀ o ∈ atNumbers.operands, (o.value? shelfBinding).isSome := by decide
  -- None of the values that are sought is a float.
  have hvalues : KeyOperand.ValuesIn shelfBinding {v | ∀ x, v ≠ .float x} atNumbers.operands := by
    have hall : ∀ o ∈ atNumbers.operands, ∃ v, o.value? shelfBinding = some v ∧
        ∀ x, v ≠ .float x := by
      simp [atNumbers, atNumber, KeyCondition.operands, KeyCondition.operandsOf, KeyTest.operands,
        KeyOperand.value?, shelfBinding, Bindings.get?, Bindings.insert]
    intro o ho w hw
    obtain ⟨v, hv, hfloat⟩ := hall o ho
    obtain rfl := Option.some.inj (hw.symm.trans hv)
    exact hfloat
  -- And neither is any of the stored keys.
  have hkeys : shelfTables.toStore.KeysIn shelves {v | ∀ x, v ≠ .float x} := by
    intro rows hrows key hkey row hrow v hv
    obtain ⟨table, htable, rfl⟩ := Tables.scan_eq_ok_iff.mp hrows
    obtain rfl := Option.some.inj htable
    obtain rfl := Option.some.inj hkey
    have hrow := SortOrder.mem_sort.mp hrow
    simp only [List.mem_cons, List.not_mem_nil, or_false] at hrow
    rcases hrow with rfl | rfl | rfl | rfl | rfl <;> obtain rfl := Option.some.inj hv <;> simp
  refine ⟨?_, ?_, ?_⟩
  · exact (KeyCondition.run_eq_run_rangeSet atNumber).1 _ _ _ _ _ rfl rfl (by decide)
  · exact (KeyCondition.run_eq_run_rangeSet atNumbers).2.1 _ _ _ _ _ _ rfl rfl hbound
      (Value.transitiveOn_of_ne_float fun _ h => h) hvalues hkeys
  · exact (KeyCondition.run_eq_run_rangeSet fromOneBelowNumber).2.2 rfl

end Sample

end QueryPlanner
