import QueryPlanner.Proofs.Run.Sorting

/-!
# Grouping sorted rows

Rows are collected into groups one by one, each into the first group with an equal key.  If keys
compare consistently, that gives one group for each key, in the order in which keys occur first,
with all rows that have the key.  So aggregating is selecting the key columns, dropping duplicates
and computing over the rows of each key, and it takes sorted rows to sorted rows because these steps
do.

## Main definitions

* `Group.byKey` — the rows of each key.

## Main results

* `Group.collect_byKey` — collecting rows one by one gives the rows of each key.
* `carries_aggregate` — aggregating takes sorted rows to sorted rows.
-/

namespace QueryPlanner

open Value (TransitiveOn)

/-- Equal keys are transitive where the order of values is. -/
theorem Row.keyEq_trans {S : Set Value} (hS : TransitiveOn S) : ∀ {a b c : Row},
    (∀ v ∈ a, v ∈ S) → (∀ v ∈ b, v ∈ S) → (∀ v ∈ c, v ∈ S) →
    Row.keyEq a b → Row.keyEq b c → Row.keyEq a c := by
  intro a
  induction a with
  | nil =>
    intro b c _ _ _ hab hbc
    cases b with
    | nil => exact hbc
    | cons y b => simp [Row.keyEq] at hab
  | cons x a ih =>
    intro b c ha hb hc hab hbc
    rw [Row.keyEq_iff] at hab hbc ⊢
    cases hab with
    | cons hxy hab =>
      cases hbc with
      | cons hyz hbc =>
        -- Equality of keys is transitive column by column.
        refine List.Forall₂.cons ?_ ?_
        · exact hS.eq_trans (ha _ (by simp)) (hb _ (by simp)) (hc _ (by simp)) hxy hyz
        · rw [← Row.keyEq_iff] at hab hbc ⊢
          exact ih (fun v hv => ha v (by simp [hv])) (fun v hv => hb v (by simp [hv]))
            (fun v hv => hc v (by simp [hv])) hab hbc

/-- One more row is kept if no row that is kept has an equal key. -/
theorem distinctAfter_append_singleton (r : Row) : ∀ rows seen : List Row,
    distinctAfter seen (rows ++ [r]) =
      if (distinctAfter seen rows).any fun s => Row.keyEq s r then distinctAfter seen rows
      else distinctAfter seen rows ++ [r] := by
  intro rows
  induction rows with
  | nil => intro seen; rfl
  | cons row rest ih =>
    intro seen
    rw [List.cons_append, distinctAfter, distinctAfter]
    split
    · exact ih seen
    · exact ih _

namespace Group

/-- The rows of each key, by first occurrence of the key. -/
def byKey (pick : Row → Row) (rows : List Row) : List Group :=
  (distinctRows (rows.map pick)).map fun key =>
    ⟨key, rows.filter fun row => Row.keyEq key (pick row)⟩

/-- A row is added to the only group with an equal key, or opens one. -/
theorem add_map {key row : Row} {members : Row → List Row} : ∀ keys : List Row,
    (keys.Pairwise fun a c => ¬ Row.keyEq a c) →
    (∀ a ∈ keys, ∀ c ∈ keys, Row.keyEq a key → Row.keyEq c key → Row.keyEq a c) →
    add key row (keys.map fun k => ⟨k, members k⟩) =
      (keys.map fun k => ⟨k, if Row.keyEq k key then members k ++ [row] else members k⟩) ++
        if keys.any fun k => Row.keyEq k key then [] else [⟨key, [row]⟩] := by
  intro keys
  induction keys with
  | nil => intro _ _; rfl
  | cons k keys ih =>
    intro hpairwise hclass
    obtain ⟨hk, hpairwise⟩ := List.pairwise_cons.mp hpairwise
    rw [List.map_cons, add, List.map_cons, List.any_cons]
    -- The row goes to the first group whose key is equal to its own.
    by_cases hkey : Row.keyEq k key
    · -- There is no other such group, since keys are pairwise distinct.
      have hothers : ∀ c ∈ keys, Row.keyEq c key = false := by
        intro c hc
        by_contra hne
        rw [Bool.not_eq_false] at hne
        exact hk c hc (hclass k (by simp) c (by simp [hc]) hkey hne)
      have hsame : keys.map (fun c => Group.mk c (members c)) = keys.map fun c =>
          ⟨c, if Row.keyEq c key then members c ++ [row] else members c⟩ :=
        List.map_congr_left fun c hc => by simp [hothers c hc]
      simp [hkey, hsame]
    · rw [if_neg hkey, ih hpairwise fun a ha c hc => hclass a (by simp [ha]) c (by simp [hc])]
      simp [hkey]

section Collecting

variable {S : Set Value} {pick : Row → Row} {rows : List Row}

/-- Adding a row to the rows of each key gives the rows of each key. -/
theorem add_byKey (hS : TransitiveOn S) {row : Row}
    (hvalues : ∀ r ∈ rows ++ [row], ∀ v ∈ pick r, v ∈ S) :
    add (pick row) row (byKey pick rows) = byKey pick (rows ++ [row]) := by
  have hrows : ∀ r ∈ rows, ∀ v ∈ pick r, v ∈ S := fun r hr => hvalues r (by simp [hr])
  have hrow : ∀ v ∈ pick row, v ∈ S := hvalues row (by simp)
  have hmem : ∀ key ∈ distinctRows (rows.map pick), ∀ v ∈ key, v ∈ S := by
    intro key hkey
    obtain ⟨r, hr, rfl⟩ := List.mem_map.mp ((distinctRows_sublist _).subset hkey)
    exact hrows r hr
  have hmembers : ∀ key, (rows ++ [row]).filter (fun r => Row.keyEq key (pick r)) =
      if Row.keyEq key (pick row) then rows.filter (fun r => Row.keyEq key (pick r)) ++ [row]
      else rows.filter fun r => Row.keyEq key (pick r) := by
    intro key
    rw [List.filter_append, List.filter_cons, List.filter_nil]
    split
    · rfl
    · rw [List.append_nil]
  have hdistinct : distinctRows ((rows ++ [row]).map pick) =
      distinctRows (rows.map pick) ++
        if (distinctRows (rows.map pick)).any fun s => Row.keyEq s (pick row) then []
        else [pick row] := by
    rw [List.map_append, distinctRows, distinctRows, List.map_singleton,
      distinctAfter_append_singleton]
    split
    · rw [List.append_nil]
    · rfl
  rw [byKey, add_map _ (pairwise_distinctRows _), byKey, hdistinct, List.map_append]
  · simp only [hmembers]
    congr 1
    split
    · rfl
    · rename_i hany
      -- No row before has the key, or else it would have been kept for some row.
      have hnone : rows.filter (fun r => Row.keyEq (pick row) (pick r)) = [] := by
        refine List.filter_eq_nil_iff.mpr fun r hr hkey => hany ?_
        obtain ⟨key, hkeyMem, hkeyEq⟩ := exists_keyEq_distinctAfter (rows.map pick) []
          (List.mem_map_of_mem hr)
        rw [Row.keyEq_comm] at hkey
        exact List.any_eq_true.mpr ⟨key, hkeyMem,
          Row.keyEq_trans hS (hmem key hkeyMem) (hrows r hr) hrow hkeyEq hkey⟩
      simp [hnone, Row.keyEq_self]
  · intro a ha c hc hakey hckey
    rw [Row.keyEq_comm] at hckey
    exact Row.keyEq_trans hS (hmem a ha) hrow (hmem c hc) hakey hckey

/-- **Collecting rows one by one gives the rows of each key.** -/
theorem collect_byKey (hS : TransitiveOn S) {columns : List Nat} : ∀ rest rows : List Row,
    (∀ row ∈ rest, Row.project row columns = .ok (pick row)) →
    (∀ row ∈ rows ++ rest, ∀ v ∈ pick row, v ∈ S) →
    collect columns (byKey pick rows) rest = .ok (byKey pick (rows ++ rest)) := by
  intro rest
  induction rest with
  | nil => intro rows _ _; rw [collect, List.append_nil]
  | cons row rest ih =>
    intro rows hpick hvalues
    have happend : rows ++ row :: rest = rows ++ [row] ++ rest := by simp
    rw [collect, hpick row (by simp), ok_bind,
      add_byKey hS fun r hr => hvalues r (by rw [happend]; exact List.mem_append_left _ hr),
      ih _ (fun r hr => hpick r (by simp [hr])) (by rw [← happend]; exact hvalues), happend]

end Collecting

/-- Rows that can be collected have all columns of the key. -/
theorem project_ok_of_collect {columns : List Nat} : ∀ {rows : List Row} {groups out : List Group},
    collect columns groups rows = .ok out →
    ∀ row ∈ rows, Row.project row columns = .ok ((Row.project row columns).toOption.getD []) := by
  intro rows
  induction rows with
  | nil => intro _ _ _ row hrow; cases hrow
  | cons r rest ih =>
    intro groups out h row hrow
    obtain ⟨key, hkey, h⟩ := bind_eq_ok_iff.mp h
    rcases List.mem_cons.mp hrow with rfl | hrow
    · rw [hkey, toOption_ok, Option.getD_some]
    · exact ih h row hrow

/-- The aggregates of groups are computed one key after the other. -/
theorem summarize_map (aggregates : List Aggregate) (members : Row → List Row) : ∀ keys : List Row,
    summarize aggregates (keys.map fun key => ⟨key, members key⟩) =
      mapRows
        (fun key => do return key ++ (← Aggregate.computeAll (members key) aggregates)) keys := by
  intro keys
  induction keys with
  | nil => rfl
  | cons key keys ih =>
    rw [List.map_cons, summarize, mapRows, ih]
    cases Aggregate.computeAll (members key) aggregates <;> rfl

end Group

theorem mapRows_congr {f g : Row → Except Fault Row} : ∀ {rows : List Row},
    (∀ row ∈ rows, f row = g row) → mapRows f rows = mapRows g rows := by
  intro rows
  induction rows with
  | nil => intro _; rfl
  | cons row rest ih =>
    intro h
    rw [mapRows, mapRows, h row (by simp), ih fun r hr => h r (by simp [hr])]

section Aggregates

variable {S : Set Value} {order : SortOrder} {b : Bindings} {columns : List Nat}
  {aggregates : List Aggregate}

/-- What aggregating gives for one key. -/
def aggregated (aggregates : List Aggregate) (pick : Row → Row) (rows : List Row) (key : Row) :
    Except Fault Row := do
  let members := rows.filter fun row => Row.keyEq key (pick row)
  return key ++ (← Aggregate.computeAll members aggregates)

/-- Aggregating is selecting keys, dropping duplicates and computing over the rows of each key. -/
theorem run_aggregate_eq (hS : TransitiveOn S) {pick : Row → Row} {rows : List Row}
    (hpick : ∀ row ∈ rows, Row.project row columns = .ok (pick row))
    (hvalues : ∀ row ∈ rows, ∀ v ∈ pick row, v ∈ S) :
    (Unary.aggregate columns aggregates).run b rows =
      mapRows (aggregated aggregates pick rows) (distinctRows (rows.map pick)) := by
  have hcollect : Group.collect columns [] rows = .ok (Group.byKey pick rows) :=
    Group.collect_byKey hS rows [] hpick hvalues
  rw [Unary.run, hcollect, ok_bind, Group.byKey, Group.summarize_map]
  rfl

/-- The rows of a key tie where keys are compared as rows are, so that sorting leaves them in their
places. -/
theorem filter_keyEq_sort (hS : TransitiveOn S) {pick : Row → Row} {order' : SortOrder}
    {rows : List Row} (hkeys : ∀ row ∈ rows, order.HasKeys S row)
    (hvalues : ∀ row ∈ rows, ∀ v ∈ pick row, v ∈ S)
    (hcompare : ∀ a ∈ rows, ∀ c ∈ rows, order'.le (pick a) (pick c) = order.le a c) {key : Row}
    (hkey : ∀ v ∈ key, v ∈ S) :
    (order.sort rows).filter (fun row => Row.keyEq key (pick row)) =
      rows.filter fun row => Row.keyEq key (pick row) := by
  refine (SortOrder.ordersOn_hasKeys hS order).filter_mergeSort hkeys
    fun a ha c hc hakey hckey => ?_
  rw [Row.keyEq_comm] at hakey
  have heq := Row.keyEq_trans hS (hvalues a ha) hkey (hvalues c hc) hakey hckey
  rw [← hcompare a ha c hc, SortOrder.le, SortOrder.compareRows_of_keyEq _ heq]
  rfl

/-- **Aggregating takes sorted rows to sorted rows** if they are sorted by key columns. -/
theorem carries_aggregate (hS : TransitiveOn S) (hnone : (order.remap columns).2 = none) :
    Carries S order (order.remap columns).1
      fun rows => (Unary.aggregate columns aggregates).run b rows := by
  intro rows out hvalues hkeys hout
  beta_reduce at hout ⊢
  obtain ⟨groups, hgroups, _⟩ := bind_eq_ok_iff.mp hout
  let pick : Row → Row := fun row => (Row.project row columns).toOption.getD []
  have hsorted : ∀ row, row ∈ order.sort rows → row ∈ rows := fun row => SortOrder.mem_sort.mp
  have hpick : ∀ row ∈ rows, Row.project row columns = .ok (pick row) :=
    fun row hrow => Group.project_ok_of_collect hgroups row (SortOrder.mem_sort.mpr hrow)
  have hpickValues : ∀ row ∈ rows, ∀ v ∈ pick row, v ∈ S :=
    fun row hrow v hv => hvalues row hrow v (Row.mem_of_mem_project (hpick row hrow) hv)
  have hsees : ∀ row ∈ rows, (order.remap columns).1.keysOf (pick row) = order.keysOf row :=
    fun row hrow => SortOrder.keysOf_remap (Row.getElem?_project (hpick row hrow)) hnone
  have hcompare : ∀ a ∈ rows, ∀ c ∈ rows,
      (order.remap columns).1.le (pick a) (pick c) = order.le a c := by
    intro a ha c hc
    rw [SortOrder.le, SortOrder.le, SortOrder.compareRows_of_keysOf_eq (hsees a ha) (hsees c hc)]
  have hmap : (order.sort rows).map pick = (order.remap columns).1.sort (rows.map pick) :=
    List.map_mergeSort fun a ha c hc => (hcompare a ha c hc).symm
  have hhas : ∀ key ∈ rows.map pick, (order.remap columns).1.HasKeys S key := by
    intro key hkey
    obtain ⟨row, hrow, rfl⟩ := List.mem_map.mp hkey
    exact (hkeys row hrow).of_keysOf_eq (hsees row hrow)
  have hkeyValues : ∀ key ∈ distinctRows (rows.map pick), ∀ v ∈ key, v ∈ S := by
    intro key hkey
    obtain ⟨row, hrow, rfl⟩ := List.mem_map.mp ((distinctRows_sublist _).subset hkey)
    exact hpickValues row hrow
  -- Over sorted rows the keys come sorted, and each has the rows it has over the rows as they are.
  have hout' : mapRows (aggregated aggregates pick rows)
      ((order.remap columns).1.sort (distinctRows (rows.map pick))) = .ok out := by
    rw [run_aggregate_eq hS (fun row hrow => hpick row (hsorted row hrow))
      fun row hrow => hpickValues row (hsorted row hrow), hmap, distinctRows_sort hS hhas] at hout
    rw [← hout]
    refine mapRows_congr fun key hkey => ?_
    rw [aggregated, aggregated, filter_keyEq_sort hS hkeys hpickValues hcompare
      (hkeyValues key (SortOrder.mem_sort.mp hkey))]
  rw [run_aggregate_eq hS hpick hpickValues]
  refine carries_mapRows hS ?_ _ out hkeyValues ?_ hout'
  · intro key x hkey hx
    obtain ⟨values, _, hx⟩ := bind_eq_ok_iff.mp hx
    obtain rfl := Except.ok.inj hx
    exact hkey.keysOf_append values
  · exact fun key hkey => hhas key ((distinctRows_sublist _).subset hkey)

end Aggregates

end QueryPlanner
