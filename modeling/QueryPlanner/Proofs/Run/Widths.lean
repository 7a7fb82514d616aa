import QueryPlanner.Proofs.Run.Grouping

/-!
# Rows are as wide as their headers say

If leaves read rows of the width of their headers, and unions and concatenations have two sides of
one width, then every plan gives rows of the width of its header.  A selection of columns that do
not exist is no exception: its header is too narrow, but it gives no rows.

## Main definitions

* `Source.Fits`, `Plan.Fits` — leaves read rows of their width, and sides that are put together
  agree.

## Main results

* `Unary.length_of_run`, `Binary.length_of_run` — operators give rows of the width of their header.
* `Plan.length_of_run` — so do plans that fit.
-/

namespace QueryPlanner

/-! ### Selected columns -/

/-- Values that are computed one after the other are as many as there are things to compute. -/
theorem length_of_sequence {α β : Type} (run : List α → Except Fault (List β))
    (step : α → Except Fault β) (hnil : run [] = .ok [])
    (hcons : ∀ a as, run (a :: as) = do
      let v ← step a
      return v :: (← run as)) :
    ∀ {as : List α} {out : List β}, run as = .ok out → out.length = as.length := by
  intro as
  induction as with
  | nil =>
    intro out h
    rw [hnil] at h
    obtain rfl := Except.ok.inj h
    rfl
  | cons a as ih =>
    intro out h
    rw [hcons] at h
    obtain ⟨v, _, h⟩ := bind_eq_ok_iff.mp h
    obtain ⟨others, hothers, h⟩ := bind_eq_ok_iff.mp h
    obtain rfl := Except.ok.inj h
    rw [List.length_cons, List.length_cons, ih hothers]

theorem Row.length_project {row out : Row} {columns : List Nat}
    (h : Row.project row columns = .ok out) : out.length = columns.length :=
  length_of_sequence (Row.project row) (Row.column row) rfl (fun _ _ => rfl) h

/-- Columns that can be selected are there. -/
theorem Row.lt_length_of_project {row out : Row} {columns : List Nat}
    (h : Row.project row columns = .ok out) : ∀ c ∈ columns, c < row.length := by
  intro c hc
  obtain ⟨i, hi⟩ := List.getElem?_of_mem hc
  have hlt : i < out.length := by
    rw [Row.length_project h]
    exact (List.getElem?_eq_some_iff.mp hi).1
  have hvalue := Row.getElem?_project h i
  rw [hi, Option.bind_some, List.getElem?_eq_getElem hlt] at hvalue
  exact (List.getElem?_eq_some_iff.mp hvalue.symm).1

/-- A selection of columns that are there has as many. -/
theorem Header.width_select {h : Header} : ∀ {columns : List Nat}, (∀ c ∈ columns, c < h.width) →
    (h.select columns).width = columns.length := by
  intro columns
  induction columns with
  | nil => intro _; rfl
  | cons c columns ih =>
    intro hcolumns
    have hc : h.columns[c]? = some (h.columns.get ⟨c, hcolumns c (by simp)⟩) :=
      List.getElem?_eq_getElem _
    have hrest := ih fun d hd => hcolumns d (by simp [hd])
    simp only [Header.width, Header.select, List.filterMap_cons, hc, List.length_cons] at hrest ⊢
    rw [hrest]

theorem Header.width_select_of_project {h : Header} {row out : Row} {columns : List Nat}
    (hrow : row.length = h.width) (hout : Row.project row columns = .ok out) :
    out.length = (h.select columns).width := by
  rw [Row.length_project hout, Header.width_select]
  rw [← hrow]
  exact Row.lt_length_of_project hout

@[simp] theorem Header.width_append (h : Header) (extra : List Column) :
    (h.append extra).width = h.width + extra.length :=
  List.length_append

/-! ### Computed columns -/

theorem length_calculated {b : Bindings} {row out : Row} {columns : List Calculation}
    (h : calculated b row columns = .ok out) : out.length = columns.length :=
  length_of_sequence (calculated b row) (fun c => c.expr.eval row b) rfl (fun _ _ => rfl) h

theorem Aggregate.length_computeAll {rows : List Row} {aggregates : List Aggregate} {out : Row}
    (h : computeAll rows aggregates = .ok out) : out.length = aggregates.length :=
  length_of_sequence (computeAll rows) (fun a => a.compute rows) rfl (fun _ _ => rfl) h

namespace Group

theorem key_of_mem_add {key row : Row} : ∀ {groups : List Group} {g : Group},
    g ∈ add key row groups → g.key = key ∨ ∃ g' ∈ groups, g'.key = g.key := by
  intro groups
  induction groups with
  | nil =>
    intro g hg
    rw [List.mem_singleton.mp hg]
    exact Or.inl rfl
  | cons first rest ih =>
    intro g hg
    rw [add] at hg
    split at hg
    · rcases List.mem_cons.mp hg with rfl | hg
      · exact Or.inr ⟨first, by simp, rfl⟩
      · exact Or.inr ⟨g, by simp [hg], rfl⟩
    · rcases List.mem_cons.mp hg with rfl | hg
      · exact Or.inr ⟨g, by simp, rfl⟩
      · rcases ih hg with hkey | ⟨g', hg', hkey⟩
        · exact Or.inl hkey
        · exact Or.inr ⟨g', by simp [hg'], hkey⟩

/-- The key of a group is that of one of its rows. -/
theorem key_of_mem_collect {columns : List Nat} : ∀ {rows : List Row} {groups out : List Group},
    collect columns groups rows = .ok out → ∀ g ∈ out,
    (∃ g' ∈ groups, g'.key = g.key) ∨ ∃ row ∈ rows, Row.project row columns = .ok g.key := by
  intro rows
  induction rows with
  | nil =>
    intro groups out h g hg
    obtain rfl := Except.ok.inj h
    exact Or.inl ⟨g, hg, rfl⟩
  | cons row rest ih =>
    intro groups out h g hg
    obtain ⟨key, hkey, h⟩ := bind_eq_ok_iff.mp h
    rcases ih h g hg with ⟨g', hg', hsame⟩ | ⟨r, hr, hproject⟩
    · rw [← hsame]
      rcases key_of_mem_add hg' with hnew | hold
      · exact Or.inr ⟨row, by simp, by rw [hnew, hkey]⟩
      · exact Or.inl hold
    · exact Or.inr ⟨r, by simp [hr], hproject⟩

/-- The row of a group is its key and one value for each aggregate. -/
theorem mem_summarize {aggregates : List Aggregate} : ∀ {groups : List Group} {out : List Row},
    summarize aggregates groups = .ok out → ∀ x ∈ out, ∃ g ∈ groups, ∃ values,
      Aggregate.computeAll g.members aggregates = .ok values ∧ x = g.key ++ values := by
  intro groups
  induction groups with
  | nil =>
    intro out h x hx
    obtain rfl := Except.ok.inj h
    cases hx
  | cons g groups ih =>
    intro out h x hx
    obtain ⟨values, hvalues, h⟩ := bind_eq_ok_iff.mp h
    obtain ⟨others, hothers, h⟩ := bind_eq_ok_iff.mp h
    obtain rfl := Except.ok.inj h
    rcases List.mem_cons.mp hx with rfl | hx
    · exact ⟨g, by simp, values, hvalues, rfl⟩
    · obtain ⟨g', hg', hrow⟩ := ih hothers x hx
      exact ⟨g', by simp [hg'], hrow⟩

end Group

/-! ### Operators -/

/-- **Operators with one input give rows of the width of their header.** -/
theorem Unary.length_of_run {b : Bindings} {op : Unary} {h : Header} {rows out : List Row}
    (hrows : ∀ row ∈ rows, row.length = h.width) (hout : op.run b rows = .ok out) :
    ∀ row ∈ out, row.length = (op.header h).width := by
  intro x hx
  cases op with
  | filter predicate =>
    obtain ⟨f, _, rfl⟩ := keepRows_eq_ok_iff.mp hout
    exact hrows x (List.mem_filter.mp hx).1
  | select columns =>
    obtain ⟨g, hg, rfl⟩ := mapRows_eq_ok_iff.mp hout
    obtain ⟨row, hrow, rfl⟩ := List.mem_map.mp hx
    exact Header.width_select_of_project (hrows row hrow) (hg row hrow)
  | calculate columns =>
    obtain ⟨g, hg, rfl⟩ := mapRows_eq_ok_iff.mp hout
    obtain ⟨row, hrow, rfl⟩ := List.mem_map.mp hx
    obtain ⟨values, hvalues, hmade⟩ := bind_eq_ok_iff.mp (hg row hrow)
    rw [← Except.ok.inj hmade, List.length_append, hrows row hrow, length_calculated hvalues,
      Unary.header, Header.width_append, List.length_map]
  | rename name =>
    obtain rfl := Except.ok.inj hout
    exact hrows x hx
  | sort order =>
    obtain rfl := Except.ok.inj hout
    exact hrows x (SortOrder.mem_sort.mp hx)
  | skip count =>
    obtain rfl := Except.ok.inj hout
    exact hrows x (List.mem_of_mem_drop hx)
  | take count =>
    obtain rfl := Except.ok.inj hout
    exact hrows x (List.mem_of_mem_take hx)
  | page before count =>
    obtain rfl := Except.ok.inj hout
    exact hrows x (List.mem_of_mem_drop (List.mem_of_mem_take hx))
  | number column =>
    obtain rfl := Except.ok.inj hout
    obtain ⟨r, hr, rfl⟩ := List.mem_map.mp hx
    rw [List.length_append, hrows r.1 (List.fst_mem_of_mem_zipIdx hr), Unary.header,
      Header.width_append]
    rfl
  | distinct =>
    obtain rfl := Except.ok.inj hout
    exact hrows x ((distinctRows_sublist _).subset hx)
  | aggregate columns aggregates =>
    obtain ⟨groups, hgroups, hout⟩ := bind_eq_ok_iff.mp hout
    obtain ⟨g, hg, values, hvalues, rfl⟩ := Group.mem_summarize hout x hx
    -- The key of a group is the projection of one of its rows.
    obtain ⟨g', hg', _⟩ | ⟨row, hrow, hkey⟩ := Group.key_of_mem_collect hgroups g hg
    · cases hg'
    · rw [List.length_append, Header.width_select_of_project (hrows row hrow) hkey,
        Aggregate.length_computeAll hvalues, Unary.header, Header.width_append, List.length_map]

namespace Binary

theorem width_header_of_isJoin {op : Binary} (hop : op.isJoin) (left right : Header) :
    (op.header left right).width = left.width + right.width := by
  cases op with
  | join kind _ | joinOn kind _ | apply kind _ =>
    cases kind <;> simp [Binary.header, JoinKind.header, ApplyKind.header, Header.join,
      Header.outerJoin, Header.width]
  | union | concat => cases hop

theorem columns_header_of_not_isJoin {op : Binary} (hop : op.isJoin = false) (left right : Header) :
    (op.header left right).columns = left.columns := by
  cases op <;> first | rfl | cases hop

/-- A left row with nulls or a right row beside it has the width of both. -/
theorem length_beside {width : Nat} {l : Row} {matched made : List Row} {isLone : Bool}
    (hmatched : ∀ r ∈ matched, r.length = width)
    (hmade : (if isLone then pure [Row.padded l width] else pure (matched.map fun r => l ++ r) :
      Except Fault (List Row)) = .ok made) : ∀ x ∈ made, x.length = l.length + width := by
  intro x hx
  obtain ⟨extra, rfl, rfl | hextra⟩ := mem_beside hmade x hx
  · rw [List.length_append, List.length_replicate]
  · rw [List.length_append, hmatched extra hextra]

/-- Rows that are put side by side have the width of both sides. -/
theorem length_of_run_of_isJoin {b : Bindings} {op : Binary} {width : Nat} {left out : List Row}
    {right : Bindings → Except Fault (List Row)} (hop : op.isJoin)
    (hright : ∀ b' rows, right b' = .ok rows → ∀ row ∈ rows, row.length = width)
    (hout : op.run b width left right = .ok out) :
    ∀ x ∈ out, ∃ l ∈ left, x.length = l.length + width := by
  -- Each left row gives rows of its own, whatever the join is on.
  have hspread : ∀ {f : Row → Except Fault (List Row)}, spreadRows f left = .ok out →
      (∀ l made, f l = .ok made → ∀ x ∈ made, x.length = l.length + width) →
      ∀ x ∈ out, ∃ l ∈ left, x.length = l.length + width := by
    intro f hf hmade x hx
    obtain ⟨g, hg, rfl⟩ := spreadRows_eq_ok_iff.mp hf
    obtain ⟨l, hl, hx⟩ := List.mem_flatMap.mp hx
    exact ⟨l, hl, hmade l (g l) (hg l hl) x hx⟩
  cases op with
  | join kind pairs | joinOn kind predicate =>
    obtain ⟨rows, hrows, hout⟩ := bind_eq_ok_iff.mp hout
    refine hspread hout fun l made hmade => ?_
    obtain ⟨matched, hmatched, hmade⟩ := bind_eq_ok_iff.mp hmade
    obtain ⟨f, _, rfl⟩ := keepRows_eq_ok_iff.mp hmatched
    exact length_beside (fun r hr => hright b rows hrows r (List.mem_filter.mp hr).1) hmade
  | apply kind bindings =>
    refine hspread hout fun l made hmade => ?_
    obtain ⟨b', _, hmade⟩ := bind_eq_ok_iff.mp hmade
    obtain ⟨matched, hmatched, hmade⟩ := bind_eq_ok_iff.mp hmade
    exact length_beside (hright b' matched hmatched) hmade
  | union | concat => cases hop

/-- The operators that are no joins give rows of either side. -/
theorem mem_or_mem_of_run {b : Bindings} {op : Binary} {width : Nat} {left out : List Row}
    {right : Bindings → Except Fault (List Row)} (hop : op.isJoin = false)
    (hout : op.run b width left right = .ok out) :
    ∃ rows, right b = .ok rows ∧ ∀ x ∈ out, x ∈ left ∨ x ∈ rows := by
  cases op with
  | union =>
    obtain ⟨rows, hrows, hout⟩ := bind_eq_ok_iff.mp hout
    obtain rfl := Except.ok.inj hout
    exact ⟨rows, hrows, fun x hx => List.mem_append.mp ((distinctRows_sublist _).subset hx)⟩
  | concat =>
    obtain ⟨rows, hrows, hout⟩ := bind_eq_ok_iff.mp hout
    obtain rfl := Except.ok.inj hout
    exact ⟨rows, hrows, fun x hx => List.mem_append.mp hx⟩
  | join _ _ | joinOn _ _ | apply _ _ => cases hop

/-- **Operators with two inputs give rows of the width of their header.** -/
theorem length_of_run {b : Bindings} {op : Binary} {h h' : Header} {left out : List Row}
    {right : Bindings → Except Fault (List Row)} (hleft : ∀ row ∈ left, row.length = h.width)
    (hright : ∀ b' rows, right b' = .ok rows → ∀ row ∈ rows, row.length = h'.width)
    (hsides : op.isJoin = false → h.width = h'.width)
    (hout : op.run b h'.width left right = .ok out) :
    ∀ row ∈ out, row.length = (op.header h h').width := by
  intro x hx
  cases hop : op.isJoin with
  | true =>
    obtain ⟨l, hl, hlength⟩ := length_of_run_of_isJoin hop hright hout x hx
    rw [width_header_of_isJoin hop, hlength, hleft l hl]
  | false =>
    obtain ⟨rows, hrows, hmem⟩ := mem_or_mem_of_run hop hout
    rw [Header.width, columns_header_of_not_isJoin hop]
    rcases hmem x hx with hx | hx
    · exact hleft x hx
    · exact (hright b rows hrows x hx).trans (hsides hop).symm

end Binary

/-! ### Plans -/

/-- The rows that a leaf reads have the width of its header. -/
structure Source.Fits (store : Store) (leaf : Source) : Prop where
  given : ∀ header rows, leaf = .rows header rows → ∀ row ∈ rows, row.length = header.width
  stored : ∀ i rows, leaf.index? = some i → store.scan i = .ok rows →
    ∀ row ∈ rows, row.length = i.columns.length

/-- A scan gives all rows that are stored, so these have the width of their index. -/
theorem Source.Fits.length_of_table {tables : Tables} {leaf : Source} (h : leaf.Fits tables)
    {i : Index} {table : List Row} (hi : leaf.index? = some i)
    (htable : tables.table? i = some table) : ∀ row ∈ table, row.length = i.columns.length := by
  intro row hrow
  exact h.stored i _ hi (Tables.scan_eq_ok_iff.mpr ⟨table, htable, rfl⟩) row
    (SortOrder.mem_sort.mpr hrow)

theorem Source.length_of_run {store : Store} {b : Bindings} {leaf : Source} {rows : List Row}
    (h : leaf.Fits store) (hrun : leaf.run store b = .ok rows) :
    ∀ row ∈ rows, row.length = leaf.header.width := by
  intro row hrow
  cases hi : leaf.index? with
  | some i =>
    obtain ⟨stored, hscan, hsub⟩ := sublist_of_run hi hrun
    rw [header_of_index? hi]
    exact h.stored i stored hi hscan row (hsub.subset hrow)
  | none =>
    cases leaf with
    | rows header given =>
      obtain rfl := Except.ok.inj hrun
      exact h.given header given rfl row hrow
    | _ => cases hi

namespace Plan

/-- The leaves of a plan read rows of their width, and sides that are put together have one width.
-/
def Fits (store : Store) : Plan → Prop
  | .source leaf => leaf.Fits store
  | .unary _ input => input.Fits store
  | .binary op left right =>
    left.Fits store ∧ right.Fits store ∧
      (op.isJoin = false → left.header.width = right.header.width)

/-- **The rows of a plan have the width of its header.** -/
theorem length_of_run {store : Store} : ∀ {p : Plan} {b : Bindings} {rows : List Row},
    p.Fits store → p.run store b = .ok rows → ∀ row ∈ rows, row.length = p.header.width := by
  intro p
  induction p with
  | source leaf => intro b rows h hrun; exact Source.length_of_run h hrun
  | unary op input ih =>
    intro b out h hrun
    obtain ⟨rows, hrows, hout⟩ := bind_eq_ok_iff.mp hrun
    exact Unary.length_of_run (ih h hrows) hout
  | binary op left right ihl ihr =>
    intro b out h hrun
    obtain ⟨hl, hr, hsides⟩ := h
    obtain ⟨rows, hrows, hout⟩ := bind_eq_ok_iff.mp hrun
    exact Binary.length_of_run (ihl hl hrows) (fun b' rrows => ihr hr) hsides hout

end Plan

end QueryPlanner
