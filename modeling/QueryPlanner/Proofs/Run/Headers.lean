import QueryPlanner.Proofs.Access.Selection
import QueryPlanner.Proofs.Ordering.Delivery

/-!
# What headers say of rows

The header of a plan is computed without running it.  It gives the width of the rows, and that is
always right: where it leaves out columns that do not exist, there are no rows.  It also gives the
order the rows come in, and that is right for every operator but a join.  A join gives its rows one
left row after the other, so the order of the right input starts anew with every left row.  The
header lets the order of the right input follow that of the left one, which holds exactly if left
rows that tie have their right rows in order with each other.  What holds of all plans is the order
of the leftmost input.

## Main definitions

* `Plan.keptOrder` — the order of a header if joins are taken to have that of their left input only.
* `Plan.DeclaresOrder` — headers name columns that are there, and given rows come in their order.
* `Plan.SortedBy` — the rows of a plan come in an order that is said of it.
* `Plan.TiesInOrder` — left rows of a join that tie have their right rows in order with each other.

## Main results

* `Plan.length_eq_width_of_run` — **rows have the width of their header**.
* `Unary.sort_run` — operators with one input give rows in the order of their header.
* `Binary.exists_beside` — a join puts right rows, or nulls, beside one left row after the other.
* `Plan.throughout_sortedBy_iff` — **rows come in the order of the leftmost input, and in that of
  their header exactly if ties are in order in all joins**.
-/

namespace QueryPlanner

open Value (TransitiveOn)

/-! ### Width -/

namespace Plan

variable {store : Store}

/-- A plan fits if its leaves do and the sides that it puts together have one width. -/
theorem fits_of_subplans : ∀ {p : Plan}, (∀ leaf, .source leaf ∈ p.subplans → leaf.Fits store) →
    (∀ op left right, .binary op left right ∈ p.subplans → op.isJoin = false →
      left.header.width = right.header.width) → p.Fits store := by
  intro p
  induction p with
  | source leaf => intro hleaves _; exact hleaves leaf (mem_subplans_self _)
  | unary op input ih =>
    intro hleaves hsides
    exact ih (fun leaf hmem => hleaves leaf (by simp [subplans, hmem]))
      fun op left right hmem => hsides op left right (by simp [subplans, hmem])
  | binary op left right ihl ihr =>
    intro hleaves hsides
    refine ⟨ihl ?_ ?_, ihr ?_ ?_, hsides op left right (mem_subplans_self _)⟩
    · exact fun leaf hmem => hleaves leaf (by simp [subplans, hmem])
    · exact fun op l r hmem => hsides op l r (by simp [subplans, hmem])
    · exact fun leaf hmem => hleaves leaf (by simp [subplans, hmem])
    · exact fun op l r hmem => hsides op l r (by simp [subplans, hmem])

/-- **Rows have the width of their header**, whatever columns are selected, grouped by and joined
on, if given rows have that of theirs, stored rows that of their index, and unions and
concatenations two sides of one width. -/
theorem length_eq_width_of_run {p : Plan} {b : Bindings} {rows : List Row}
    (hgiven : ∀ header given, .source (.rows header given) ∈ p.subplans →
      ∀ row ∈ given, row.length = header.width)
    (hstored : ∀ leaf i stored, .source leaf ∈ p.subplans → leaf.index? = some i →
      store.scan i = .ok stored → ∀ row ∈ stored, row.length = i.columns.length)
    (hsides : ∀ op left right, .binary op left right ∈ p.subplans → op = .union ∨ op = .concat →
      left.header.width = right.header.width)
    (hrun : p.run store b = .ok rows) : ∀ row ∈ rows, row.length = p.header.width := by
  refine length_of_run (fits_of_subplans (fun leaf hmem => ⟨?_, ?_⟩) ?_) hrun
  · rintro header given rfl
    exact hgiven header given hmem
  · intro i stored hi hscan
    exact hstored leaf i stored hmem hi hscan
  · intro op left right hmem hop
    refine hsides op left right hmem ?_
    cases op with
    | union => exact Or.inl rfl
    | concat => exact Or.inr rfl
    | join _ _ | joinOn _ _ | apply _ _ => cases hop

end Plan

namespace Sample

/-- Great orders, of which there are none: their amount and a column that does not exist. -/
def greatOrders : Plan := .unary (.select [7, 1])
  (.unary (.filter (.compare .gt (.column 1) (.literal (.int32 100)))) orders)

/-- All users with their great orders, and below them all orders with their customer again. -/
def usersAndOrders : Plan := .binary .concat
  (.binary (.apply .outer [(0, "id")]) (.source (.scan (users 1))) greatOrders)
  (.unary (.calculate [⟨"again", .int32, .column 0⟩]) orders)

/-- The header of the selection has one column only, and that is the null beside each user. -/
theorem length_eq_width_of_run_usersAndOrders :
    ∃ rows, usersAndOrders.run (store 1) .empty = .ok rows ∧ rows.length = 7 ∧
      usersAndOrders.header.width = 3 ∧ ∀ row ∈ rows, row.length = usersAndOrders.header.width := by
  have hrun : usersAndOrders.run (store 1) .empty =
      .ok [[.int32 1, .int32 30, .null], [.int32 2, .int32 20, .null], [.int32 3, .int32 40, .null],
        [.int32 1, .int32 30, .int32 1], [.int32 1, .int32 20, .int32 1],
        [.int32 2, .int32 20, .int32 2], [.int32 3, .int32 30, .int32 3]] := by
    rw [usersAndOrders, Plan.run, Plan.run, run_users (table_users 1)]
    rfl
  refine ⟨_, hrun, rfl, rfl, Plan.length_eq_width_of_run ?_ ?_ ?_ hrun⟩
  · intro header given hmem
    simp only [usersAndOrders, greatOrders, orders, Plan.subplans, List.mem_cons, List.mem_append,
      Plan.source.injEq, Source.rows.injEq, reduceCtorEq, or_false, false_or, List.not_mem_nil,
      or_self] at hmem
    obtain ⟨rfl, rfl⟩ := hmem
    decide
  · intro leaf i stored hmem hi hscan
    simp only [usersAndOrders, greatOrders, orders, Plan.subplans, List.mem_cons, List.mem_append,
      Plan.source.injEq, reduceCtorEq, or_false, false_or, List.not_mem_nil] at hmem
    rcases hmem with (rfl | rfl) | rfl
    · obtain rfl := Option.some.inj hi
      obtain ⟨table, htable, rfl⟩ := Tables.scan_eq_ok_iff.mp hscan
      obtain rfl := Option.some.inj ((table_users 1).symm.trans htable)
      intro row hrow
      have hrows : ∀ row ∈ rows, row.length = 2 := by decide
      exact hrows row (SortOrder.mem_sort.mp hrow)
    · cases hi
    · cases hi
  · intro op left right hmem hop
    simp only [usersAndOrders, greatOrders, orders, Plan.subplans, List.mem_cons, List.mem_append,
      Plan.binary.injEq, reduceCtorEq, or_false, List.not_mem_nil, or_self] at hmem
    rcases hmem with ⟨rfl, rfl, rfl⟩ | ⟨rfl, rfl, rfl⟩
    · rfl
    · simp at hop

end Sample

/-! ### Order of operators with one input -/

variable {S : Set Value} {b : Bindings} {rows out : List Row}

/-- **Operators with one input give rows in the order of their header.** -/
theorem Unary.sort_run {op : Unary} {h : Header} (hS : TransitiveOn S)
    (hvalues : ∀ row ∈ rows, ∀ v ∈ row, v ∈ S) (hkeys : ∀ row ∈ rows, h.order.HasKeys S row)
    (hsorted : h.order.sort rows = rows) (hout : op.run b rows = .ok out)
    (hkeys' : ∀ row ∈ out, (op.header h).order.HasKeys S row) :
    (op.header h).order.sort out = out := by
  cases op with
  | sort order =>
    obtain rfl := Except.ok.inj hout
    exact SortOrder.sort_sort hS fun row hrow => hkeys' row (SortOrder.mem_sort.mpr hrow)
  | filter _ | calculate _ | rename _ | distinct =>
    exact (Unary.carries_of_keepsPlaces hS rfl).sort_eq hvalues hkeys hsorted hout
  | select _ | aggregate _ _ => exact Unary.sort_run_of_mapping hS rfl hvalues hkeys hsorted hout
  | skip _ | take _ | page _ _ | number _ =>
    exact (Unary.sort_run_of_needsOrder rfl hS hkeys hsorted hout).1

/-! ### Order of joins -/

namespace SortOrder

variable {order L R : SortOrder} {width : Nat} {left : List Row}

/-- Rows of which none comes after a greater neighbour are in order with each other. -/
theorem isSorted_iff_pairwise (hS : TransitiveOn S) (hkeys : ∀ row ∈ rows, order.HasKeys S row) :
    order.isSorted rows ↔ rows.Pairwise fun x y => order.le x y := by
  rw [← sort_eq_self_iff hS hkeys]
  exact ⟨sort_of_isSorted hS hkeys, isSorted_of_sort_eq hS hkeys⟩

/-- An order that is moved to the right sees of a row that has another one before it what it saw
before. -/
theorem keysOf_shift (R : SortOrder) {l : Row} (hl : l.length = width) (r : Row) :
    (R.shift width).keysOf (l ++ r) = R.keysOf r := by
  simp [keysOf, shift, SortKey.shift, ← hl, List.getElem?_append_right]

/-- Rows that are put side by side compare as the left ones do, and if those tie as the right ones
do. -/
theorem compareRows_beside {l l' : Row} (hl : L.HasKeys S l) (hl' : L.HasKeys S l')
    (hlength : l.length = width) (hlength' : l'.length = width) (r r' : Row) :
    (L ++ R.shift width).compareRows (l ++ r) (l' ++ r') =
      (L.compareRows l l').then (R.compareRows r r') := by
  rw [compareRows_append, compareRows_of_keysOf_eq (hl.keysOf_append r) (hl'.keysOf_append r'),
    compareRows_of_keysOf_eq (keysOf_shift R hlength r) (keysOf_shift R hlength' r')]

/-- **Rows that are put beside one left row after the other come in the order of both sides exactly
if left rows that tie have theirs in order with each other.** -/
theorem pairwise_beside_iff {beside : Row → List Row} (hS : TransitiveOn S)
    (hleft : ∀ l ∈ left, l.length = width ∧ L.HasKeys S l)
    (hsorted : left.Pairwise fun l l' => L.le l l')
    (hbeside : ∀ l ∈ left, (beside l).Pairwise fun r r' => R.le r r') :
    ((left.flatMap fun l => (beside l).map (l ++ ·)).Pairwise
        fun x y => (L ++ R.shift width).le x y) ↔
      left.Pairwise fun l l' => L.compareRows l l' = .eq →
        ∀ r ∈ beside l, ∀ r' ∈ beside l', R.le r r' := by
  -- Joined rows compare by their left parts first, and by their right parts only on a tie.
  have hle : ∀ l ∈ left, ∀ l' ∈ left, ∀ r r', ((L ++ R.shift width).le (l ++ r) (l' ++ r') ↔
      L.le l l' ∧ (L.compareRows l l' = .eq → R.le r r')) := by
    intro l hl l' hl' r r'
    rw [le_eq_isLE, compareRows_beside (hleft l hl).2 (hleft l' hl').2 (hleft l hl).1
      (hleft l' hl').1, le_eq_isLE, le_eq_isLE]
    cases L.compareRows l l' <;> simp
  rw [List.pairwise_flatMap]
  constructor
  · rintro ⟨_, hcross⟩
    refine hcross.imp_of_mem fun {l l'} hl hl' h htie r hr r' hr' => ?_
    have hboth := h _ (List.mem_map_of_mem hr) _ (List.mem_map_of_mem hr')
    exact ((hle l hl l' hl' r r').mp hboth).2 htie
  · intro hties
    refine ⟨fun l hl => ?_, ?_⟩
    · -- Rows from one left row tie on the left, and come in the order of the right.
      rw [List.pairwise_map]
      have hself := (ordersOn_hasKeys hS L).total l (hleft l hl).2 l (hleft l hl).2
      exact (hbeside l hl).imp fun {r r'} h =>
        (hle l hl l hl r r').mpr ⟨hself.elim id id, fun _ => h⟩
    · -- Rows from different left rows come in the order of those, and ties are in order by
      -- assumption.
      refine (hsorted.and hties).imp_of_mem fun {l l'} hl hl' h x hx y hy => ?_
      obtain ⟨r, hr, rfl⟩ := List.mem_map.mp hx
      obtain ⟨r', hr', rfl⟩ := List.mem_map.mp hy
      exact (hle l hl l' hl' r r').mpr ⟨h.1, fun htie => h.2 htie r hr r' hr'⟩

end SortOrder

namespace Binary

variable {width : Nat} {left : List Row}

theorem exists_beside_of_spreadRows {f : Row → Except Fault (List Row)} {P : List Row → Prop}
    (hf : ∀ l ∈ left, ∀ made, f l = .ok made → ∃ extras, made = extras.map (l ++ ·) ∧ P extras)
    (hout : spreadRows f left = .ok out) :
    ∃ beside : Row → List Row,
      (∀ l ∈ left, spreadRows f [l] = .ok ((beside l).map (l ++ ·)) ∧ P (beside l)) ∧
      out = left.flatMap fun l => (beside l).map (l ++ ·) := by
  obtain ⟨g, hg, rfl⟩ := spreadRows_eq_ok_iff.mp hout
  have hextras : ∀ l ∈ left, ∃ extras, g l = extras.map (l ++ ·) ∧ P extras :=
    fun l hl => hf l hl (g l) (hg l hl)
  choose! beside hmade hP using hextras
  refine ⟨beside, fun l hl => ⟨?_, hP l hl⟩, List.flatMap_congr hmade⟩
  refine spreadRows_eq_ok_iff.mpr ⟨g, ?_, ?_⟩
  · intro l' hl'
    rw [List.mem_singleton.mp hl']
    exact hg l hl
  · rw [List.flatMap_singleton, hmade l hl]

/-- The rows that a join can put beside a left row: nulls, or rows of its right input in their
order. -/
def PutsBeside (op : Binary) (b : Bindings) (width : Nat) (left : List Row)
    (right : Bindings → Except Fault (List Row)) (extras : List Row) : Prop :=
  extras = [List.replicate width .null] ∨
    ∃ b' ∈ op.rightBindings b (.ok left), ∃ rows, right b' = .ok rows ∧ extras.Sublist rows

/-- **A join puts rows beside one left row after the other**, as it does for that row alone. -/
theorem exists_beside {op : Binary} {right : Bindings → Except Fault (List Row)} (hop : op.isJoin)
    (hout : op.run b width left right = .ok out) :
    ∃ beside : Row → List Row,
      (∀ l ∈ left, op.run b width [l] right = .ok ((beside l).map (l ++ ·)) ∧
        op.PutsBeside b width left right (beside l)) ∧
      out = left.flatMap fun l => (beside l).map (l ++ ·) := by
  cases op with
  | join kind pairs | joinOn kind predicate =>
    obtain ⟨rows, hrows, hout⟩ := bind_eq_ok_iff.mp hout
    simp only [Binary.run, hrows, ok_bind]
    refine exists_beside_of_spreadRows (P := PutsBeside _ b width left right)
      (fun l _ made hmade => ?_) hout
    -- All left rows are matched against one run of the right input.
    obtain ⟨matched, hmatched, hmade⟩ := bind_eq_ok_iff.mp hmade
    obtain ⟨f, _, rfl⟩ := keepRows_eq_ok_iff.mp hmatched
    obtain ⟨extras, rfl, hextras | rfl⟩ := exists_extras hmade
    · exact ⟨extras, rfl, Or.inl hextras⟩
    · exact ⟨_, rfl, Or.inr ⟨b, rfl, rows, hrows, List.filter_sublist⟩⟩
  | apply kind columns =>
    refine exists_beside_of_spreadRows (P := PutsBeside _ b width left right)
      (fun l hl made hmade => ?_) hout
    -- The right input is run again for each left row, under bindings made from it.
    obtain ⟨b', hb', hmade⟩ := bind_eq_ok_iff.mp hmade
    obtain ⟨matched, hmatched, hmade⟩ := bind_eq_ok_iff.mp hmade
    obtain ⟨extras, rfl, hextras | rfl⟩ := exists_extras hmade
    · exact ⟨extras, rfl, Or.inl hextras⟩
    · exact ⟨_, rfl, Or.inr ⟨b', ⟨left, rfl, l, hl, hb'⟩, _, hmatched, List.Sublist.refl _⟩⟩
  | union | concat => cases hop

theorem order_header_of_isJoin {op : Binary} (hop : op.isJoin) (left right : Header) :
    (op.header left right).order = left.order ++ right.order.shift left.width := by
  cases op with
  | join kind _ | joinOn kind _ | apply kind _ => cases kind <;> rfl
  | union | concat => cases hop

theorem order_header_of_not_isJoin {op : Binary} (hop : op.isJoin = false) (left right : Header) :
    (op.header left right).order = [] := by
  cases op <;> first | rfl | cases hop

end Binary

/-! ### Order of plans -/

namespace SortOrder

/-- Of an order that begins another one, a selection leaves what begins the rest of the other one.
-/
theorem remap_begins (mapping : List Nat) : ∀ {start order : SortOrder}, start <+: order →
    (start.remap mapping).1 <+: (order.remap mapping).1 := by
  intro start
  induction start with
  | nil => intro order _; exact List.nil_prefix
  | cons k ks ih =>
    rintro _ ⟨rest, rfl⟩
    rw [List.cons_append, remap, remap]
    cases mapping.idxOf? k.column with
    | none => exact List.prefix_refl _
    | some position => exact List.prefix_cons_iff.mpr (Or.inr ⟨_, rfl, ih ⟨rest, rfl⟩⟩)

end SortOrder

theorem Unary.order_header_begins (op : Unary) {h : Header} {order : SortOrder}
    (horder : order <+: h.order) :
    (op.header (h.withOrder order)).order <+: (op.header h).order := by
  cases op with
  | sort order => exact List.prefix_refl _
  | select columns | aggregate columns _ => exact SortOrder.remap_begins columns horder
  | _ => exact horder

namespace Plan

/-- The order of the header of a plan if joins are taken to have the order of their left input only.
-/
def keptOrder : Plan → SortOrder
  | .source leaf => leaf.header.order
  | .unary op input => (op.header (input.header.withOrder input.keptOrder)).order
  | .binary op left _ => if op.isJoin then left.keptOrder else []

theorem keptOrder_begins : ∀ p : Plan, p.keptOrder <+: p.header.order := by
  intro p
  induction p with
  | source leaf => exact List.prefix_refl _
  | unary op input ih => exact op.order_header_begins ih
  | binary op left right ihl _ =>
    rw [keptOrder, header]
    cases hop : op.isJoin with
    | true =>
      rw [if_pos rfl, Binary.order_header_of_isJoin hop]
      exact ihl.trans (List.prefix_append _ _)
    | false => exact List.nil_prefix

/-- The orders in the headers of a plan are by columns that are there, given rows come in theirs,
and stored rows can be compared: their values are in a set. -/
structure DeclaresOrder (store : Tables) (S : Set Value) (p : Plan) : Prop where
  columns : ∀ q ∈ p.subplans, ∀ k ∈ q.header.order, k.column < q.header.width
  given : ∀ header rows, .source (.rows header rows) ∈ p.subplans → header.order.isSorted rows
  stored : ∀ leaf i rows, .source leaf ∈ p.subplans → leaf.index? = some i →
    store.table? i = some rows → ∀ row ∈ rows, ∀ v ∈ row, v ∈ S

/-- Whether given rows come in the order said of them. -/
def isTruthful : Plan → Bool
  | .source (.rows header rows) => header.order.isSorted rows
  | _ => true

/-- The rows of a plan come in an order that is said of it. -/
def SortedBy (store : Store) (order : Plan → SortOrder) (p : Plan) (b : Bindings) : Prop :=
  ∀ rows, p.run store b = .ok rows → (order p).isSorted rows

/-- If two left rows of a join tie, then no right row that is put beside the first one comes after
one that is put beside the second one. -/
def TieInOrder (store : Store) (b : Bindings) (op : Binary) (left right : Plan) (l l' : Row) :
    Prop :=
  left.header.order.compareRows l l' = .eq →
    ∀ made made', op.run b right.header.width [l] (right.run store) = .ok made →
      op.run b right.header.width [l'] (right.run store) = .ok made' →
      ∀ x ∈ made, ∀ y ∈ made', (right.header.order.shift left.header.width).le x y

/-- If the plan is a join that gives rows, then its left rows that tie are in order. -/
def TiesInOrder (store : Store) : Plan → Bindings → Prop
  | .binary op left right, b => op.isJoin → ∀ rows out, left.run store b = .ok rows →
      (Plan.binary op left right).run store b = .ok out →
      rows.Pairwise (TieInOrder store b op left right)
  | _, _ => True

variable {store : Tables} {p : Plan} {order : Plan → SortOrder}

namespace DeclaresOrder

/-- If nothing is stored it is enough to look at the headers and the given rows. -/
theorem of_isTruthful (hcolumns : ∀ q ∈ p.subplans, ∀ k ∈ q.header.order, k.column < q.header.width)
    (hgiven : ∀ q ∈ p.subplans, q.isTruthful) : p.DeclaresOrder .empty S :=
  ⟨hcolumns, fun _ _ hmem => hgiven _ hmem, fun _ _ _ _ _ htable => by cases htable⟩

theorem mono {q : Plan} (h : p.DeclaresOrder store S) (hq : ∀ r ∈ q.subplans, r ∈ p.subplans) :
    q.DeclaresOrder store S :=
  ⟨fun r hmem => h.columns r (hq r hmem), fun header rows hmem => h.given header rows (hq _ hmem),
    fun leaf i rows hmem => h.stored leaf i rows (hq _ hmem)⟩

theorem ordersTruly (h : p.DeclaresOrder store S) : p.OrdersTruly store S :=
  ⟨fun order input hmem => h.columns (.unary (.sort order) input) hmem,
    fun leaf hmem => h.columns (.source leaf) hmem, h.given, h.stored⟩

/-- The rows of a plan have the columns of its order, because they are as wide as its header. -/
theorem hasKeys {keys : SortOrder} (h : p.DeclaresOrder store S) (hfits : p.Fits store)
    (hvalues : p.GivesIn store S b) (hkeys : keys <+: p.header.order)
    (hrun : p.run store b = .ok rows) : ∀ row ∈ rows, keys.HasKeys S row := by
  intro row hrow
  refine SortOrder.hasKeys_of_lt_length (fun k hk => ?_) (hvalues rows hrun row hrow)
  rw [length_of_run hfits hrun row hrow]
  exact h.columns p (mem_subplans_self p) k (hkeys.subset hk)

end DeclaresOrder

/-- Rows come in an order that begins that of the header exactly if sorting by it leaves them as
they are. -/
theorem isSorted_run_iff {keys : SortOrder} (hS : TransitiveOn S) (hp : p.DeclaresOrder store S)
    (hfits : p.Fits store) (hvalues : p.GivesIn store S b) (hkeys : keys <+: p.header.order)
    (hrun : p.run store b = .ok rows) : keys.isSorted rows ↔ keys.sort rows = rows := by
  have hhas := hp.hasKeys hfits hvalues hkeys hrun
  rw [SortOrder.isSorted_iff_pairwise hS hhas, SortOrder.sort_eq_self_iff hS hhas]

theorem sortedBy_source {leaf : Source} (hS : TransitiveOn S)
    (hp : (Plan.source leaf).DeclaresOrder store S) (hfits : leaf.Fits store)
    (hvalues : (Plan.source leaf).GivesIn store S b)
    (horder : order (.source leaf) = leaf.header.order) :
    (Plan.source leaf).SortedBy store order b := by
  intro rows hrun
  obtain ⟨hsorted, hkeys⟩ :=
    Source.sort_run hS hp.ordersTruly (comparable_source hfits hvalues) hrun
  rw [horder]
  exact SortOrder.isSorted_of_sort_eq hS hkeys hsorted

theorem sortedBy_unary {op : Unary} {input : Plan} (hS : TransitiveOn S)
    (hp : (Plan.unary op input).DeclaresOrder store S) (hfits : input.Fits store)
    (hvalues : (Plan.unary op input).Throughout store (GivesIn store S) b)
    (hbegins : ∀ q, order q <+: q.header.order)
    (horder : order (.unary op input) = (op.header (input.header.withOrder (order input))).order)
    (hinput : input.SortedBy store order b) : (Plan.unary op input).SortedBy store order b := by
  intro out hrun
  rw [isSorted_run_iff hS hp hfits hvalues.1 (hbegins _) hrun]
  have hkeys' := hp.hasKeys hfits hvalues.1 (hbegins _) hrun
  obtain ⟨rows, hrows, hout⟩ := bind_eq_ok_iff.mp hrun
  have hp' : input.DeclaresOrder store S := hp.mono fun q hq => by simp [subplans, hq]
  have hsorted := (isSorted_run_iff hS hp' hfits hvalues.2.self (hbegins input) hrows).mp
    (hinput rows hrows)
  rw [horder] at hkeys' ⊢
  exact Unary.sort_run hS (hvalues.2.self rows hrows)
    (hp'.hasKeys hfits hvalues.2.self (hbegins input) hrows) hsorted hout hkeys'

/-- The rows of a join come in the order of its left input. -/
theorem sortedBy_keptOrder_binary {op : Binary} {left right : Plan} (hS : TransitiveOn S)
    (hp : (Plan.binary op left right).DeclaresOrder store S)
    (hfits : (Plan.binary op left right).Fits store)
    (hvalues : (Plan.binary op left right).Throughout store (GivesIn store S) b)
    (hleft : left.SortedBy store keptOrder b) :
    (Plan.binary op left right).SortedBy store keptOrder b := by
  intro out hrun
  rw [isSorted_run_iff hS hp hfits hvalues.1 (keptOrder_begins _) hrun, keptOrder]
  cases hop : op.isJoin with
  | true =>
    obtain ⟨rows, hrows, hout⟩ := bind_eq_ok_iff.mp hrun
    have hp' : left.DeclaresOrder store S := hp.mono fun q hq => by simp [subplans, hq]
    have hbegins := keptOrder_begins left
    have hsorted := (isSorted_run_iff hS hp' hfits.1 hvalues.2.1.self hbegins hrows).mp
      (hleft rows hrows)
    exact (Binary.carries hop hS right.header.width (right.run store)).sort_eq
      (hvalues.2.1.self rows hrows) (hp'.hasKeys hfits.1 hvalues.2.1.self hbegins hrows)
      hsorted hout
  | false => exact SortOrder.sort_nil out

/-- **Every part of a plan gives rows in the order of its leftmost input.** -/
theorem throughout_sortedBy_keptOrder (hS : TransitiveOn S) : ∀ {p : Plan} {b : Bindings},
    p.DeclaresOrder store S → p.Fits store → p.Throughout store (GivesIn store S) b →
    p.Throughout store (SortedBy store keptOrder) b := by
  intro p
  induction p with
  | source leaf => intro b hp hfits hvalues; exact sortedBy_source hS hp hfits hvalues rfl
  | unary op input ih =>
    intro b hp hfits hvalues
    have hinput := ih (hp.mono fun q hq => by simp [subplans, hq]) hfits hvalues.2
    exact ⟨sortedBy_unary hS hp hfits hvalues keptOrder_begins rfl hinput.self, hinput⟩
  | binary op left right ihl ihr =>
    intro b hp hfits hvalues
    have hleft := ihl (hp.mono fun q hq => by simp [subplans, hq]) hfits.1 hvalues.2.1
    exact ⟨sortedBy_keptOrder_binary hS hp hfits hvalues hleft.self, hleft, fun b' hb' =>
      ihr (hp.mono fun q hq => by simp [subplans, hq]) hfits.2.1 (hvalues.2.2 b' hb')⟩

theorem SortedBy.pairwise (h : p.SortedBy store (fun q => q.header.order) b) (hS : TransitiveOn S)
    (hp : p.DeclaresOrder store S) (hfits : p.Fits store) (hvalues : p.GivesIn store S b)
    (hrun : p.run store b = .ok rows) : rows.Pairwise fun x y => p.header.order.le x y := by
  exact (SortOrder.isSorted_iff_pairwise hS (hp.hasKeys hfits hvalues (List.prefix_refl _) hrun)).mp
    (h rows hrun)

/-- The rows of a join come in the order of its header exactly if left rows that tie are in order.
-/
theorem isSorted_join_iff {op : Binary} {left right : Plan} (hop : op.isJoin) (hS : TransitiveOn S)
    (hp : (Plan.binary op left right).DeclaresOrder store S)
    (hfits : (Plan.binary op left right).Fits store)
    (hvalues : (Plan.binary op left right).Throughout store (GivesIn store S) b)
    (hleft : left.SortedBy store (fun q => q.header.order) b)
    (hright : ∀ b' ∈ op.rightBindings b (left.run store b),
      right.SortedBy store (fun q => q.header.order) b') (hrows : left.run store b = .ok rows)
    (hrun : (Plan.binary op left right).run store b = .ok out) :
    (Plan.binary op left right).header.order.isSorted out ↔
      rows.Pairwise (TieInOrder store b op left right) := by
  have hpl : left.DeclaresOrder store S := hp.mono fun q hq => by simp [subplans, hq]
  have hpr : right.DeclaresOrder store S := hp.mono fun q hq => by simp [subplans, hq]
  obtain ⟨hgives, hvl, hvr⟩ := hvalues
  rw [hrows] at hvr hright
  have hleftRows : ∀ l ∈ rows, l.length = left.header.width ∧ left.header.order.HasKeys S l :=
    fun l hl => ⟨length_of_run hfits.1 hrows l hl,
      hpl.hasKeys hfits.1 hvl.self (List.prefix_refl _) hrows l hl⟩
  have hout : op.run b right.header.width rows (right.run store) = .ok out := by
    rw [run, hrows, ok_bind] at hrun
    exact hrun
  obtain ⟨beside, hbeside, hflat⟩ := Binary.exists_beside hop hout
  -- What stands beside one left row comes in the order of the right input.
  have hextras : ∀ l ∈ rows, (beside l).Pairwise fun r r' => right.header.order.le r r' := by
    intro l hl
    rcases (hbeside l hl).2 with hnulls | ⟨b', hb', given, hgiven, hsub⟩
    · rw [hnulls]
      exact List.pairwise_singleton _ _
    · exact ((hright b' hb').pairwise hS hpr hfits.2.1 (hvr b' hb').self hgiven).sublist hsub
  rw [SortOrder.isSorted_iff_pairwise hS (hp.hasKeys hfits hgives (List.prefix_refl _) hrun),
    header, Binary.order_header_of_isJoin hop, hflat, SortOrder.pairwise_beside_iff hS hleftRows
      (hleft.pairwise hS hpl hfits.1 hvl.self hrows) hextras]
  refine List.Pairwise.iff_of_mem fun {l l'} hl hl' => forall_congr' fun _ => ?_
  -- The rows made of a left row alone are the row with what stands beside it.
  have hmade := (hbeside l hl).1
  have hmade' := (hbeside l' hl').1
  have hle : ∀ r r', (right.header.order.shift left.header.width).le (l ++ r) (l' ++ r') =
      right.header.order.le r r' := by
    intro r r'
    rw [SortOrder.le, SortOrder.le, SortOrder.compareRows_of_keysOf_eq
      (SortOrder.keysOf_shift _ (hleftRows l hl).1 r)
      (SortOrder.keysOf_shift _ (hleftRows l' hl').1 r')]
  constructor
  · intro h made made' hrun hrun' x hx y hy
    obtain rfl := Except.ok.inj (hmade.symm.trans hrun)
    obtain rfl := Except.ok.inj (hmade'.symm.trans hrun')
    obtain ⟨r, hr, rfl⟩ := List.mem_map.mp hx
    obtain ⟨r', hr', rfl⟩ := List.mem_map.mp hy
    rw [hle]
    exact h r hr r' hr'
  · intro h r hr r' hr'
    rw [← hle]
    exact h _ _ hmade hmade' _ (List.mem_map_of_mem hr) _ (List.mem_map_of_mem hr')

/-- **The rows of a join come in the order of its header exactly if its ties are in order**, where
both inputs give rows in the order of theirs. -/
theorem sortedBy_header_binary_iff {op : Binary} {left right : Plan} (hS : TransitiveOn S)
    (hp : (Plan.binary op left right).DeclaresOrder store S)
    (hfits : (Plan.binary op left right).Fits store)
    (hvalues : (Plan.binary op left right).Throughout store (GivesIn store S) b)
    (hleft : left.SortedBy store (fun q => q.header.order) b)
    (hright : ∀ b' ∈ op.rightBindings b (left.run store b),
      right.SortedBy store (fun q => q.header.order) b') :
    (Plan.binary op left right).SortedBy store (fun q => q.header.order) b ↔
      (Plan.binary op left right).TiesInOrder store b := by
  cases hop : op.isJoin with
  | true =>
    constructor
    · intro h _ rows out hrows hrun
      exact (isSorted_join_iff hop hS hp hfits hvalues hleft hright hrows hrun).mp (h out hrun)
    · intro h out hrun
      obtain ⟨rows, hrows, _⟩ := bind_eq_ok_iff.mp hrun
      exact (isSorted_join_iff hop hS hp hfits hvalues hleft hright hrows hrun).mpr
        (h hop rows out hrows hrun)
  | false =>
    -- A union or a concatenation is said to have no order.
    refine iff_of_true (fun out hrun => ?_)
      fun hjoin => absurd (hop.symm.trans hjoin) Bool.false_ne_true
    rw [isSorted_run_iff hS hp hfits hvalues.1 (List.prefix_refl _) hrun, header,
      Binary.order_header_of_not_isJoin hop]
    exact SortOrder.sort_nil out

theorem throughout_sortedBy_header_iff (hS : TransitiveOn S) : ∀ {p : Plan} {b : Bindings},
    p.DeclaresOrder store S → p.Fits store → p.Throughout store (GivesIn store S) b →
    (p.Throughout store (SortedBy store fun q => q.header.order) b ↔
      p.Throughout store (TiesInOrder store) b) := by
  intro p
  induction p with
  | source leaf =>
    intro b hp hfits hvalues
    exact iff_of_true (sortedBy_source hS hp hfits hvalues rfl) trivial
  | unary op input ih =>
    intro b hp hfits hvalues
    have hinput := ih (hp.mono fun q hq => by simp [subplans, hq]) hfits hvalues.2
    constructor
    · intro h
      exact ⟨trivial, hinput.mp h.2⟩
    · intro h
      have hsorted := hinput.mpr h.2
      exact ⟨sortedBy_unary hS hp hfits hvalues (fun _ => List.prefix_refl _) rfl hsorted.self,
        hsorted⟩
  | binary op left right ihl ihr =>
    intro b hp hfits hvalues
    have hleft := ihl (hp.mono fun q hq => by simp [subplans, hq]) hfits.1 hvalues.2.1
    have hright := fun b' hb' =>
      ihr (hp.mono fun q hq => by simp [subplans, hq]) hfits.2.1 (hvalues.2.2 b' hb')
    -- Both sides say the same of the inputs, and where those come in order also of the join.
    constructor
    · rintro ⟨hjoin, hl, hr⟩
      exact ⟨(sortedBy_header_binary_iff hS hp hfits hvalues hl.self
        fun b' hb' => (hr b' hb').self).mp hjoin,
        hleft.mp hl, fun b' hb' => (hright b' hb').mp (hr b' hb')⟩
    · rintro ⟨hjoin, hl, hr⟩
      have hl := hleft.mpr hl
      have hr := fun b' hb' => (hright b' hb').mpr (hr b' hb')
      exact ⟨(sortedBy_header_binary_iff hS hp hfits hvalues hl.self
        fun b' hb' => (hr b' hb').self).mpr hjoin, hl, hr⟩

/-- Ties are in order in a join if its left rows have none. -/
theorem tiesInOrder_of_tieless {store : Store} {op : Binary} {left right : Plan} {b : Bindings}
    (h : ∀ rows, left.run store b = .ok rows → left.header.order.Tieless rows) :
    (Plan.binary op left right).TiesInOrder store b := by
  intro _ rows _ hrows _
  exact (h rows hrows).imp fun hne htie => absurd htie hne

/-- **Every part of a plan gives rows in the order of its header exactly if ties are in order in all
its joins**; whether they are or not, rows come in the order of the leftmost input, which begins
that of the header. -/
theorem throughout_sortedBy_iff (hS : TransitiveOn S) (hp : p.DeclaresOrder store S)
    (hfits : p.Fits store) (hvalues : p.Throughout store (GivesIn store S) b) :
    p.keptOrder <+: p.header.order ∧ p.Throughout store (SortedBy store keptOrder) b ∧
      (p.Throughout store (SortedBy store fun q => q.header.order) b ↔
        p.Throughout store (TiesInOrder store) b) := by
  exact ⟨p.keptOrder_begins, throughout_sortedBy_keptOrder hS hp hfits hvalues,
    throughout_sortedBy_header_iff hS hp hfits hvalues⟩

end Plan

namespace Sample

/-- Customers, each once. -/
def customers : Plan := .source (.rows ⟨[⟨"id", .int32, false⟩], [.asc 0]⟩
  [[.int32 1], [.int32 2], [.int32 20]])

/-- Customers with their orders, by columns of both. -/
def customerOrders : Plan :=
  .unary (.select [2, 0, 1]) (.binary (.join .leftOuter [(0, 0)]) customers orders)

theorem declaresOrder_customerOrders : customerOrders.DeclaresOrder .empty {v | v ∈ orderValues} :=
  .of_isTruthful (by decide) (by decide)

theorem fits_customerOrders : customerOrders.Fits .empty := by
  refine ⟨⟨?_, fun i rows hi => by cases hi⟩, ⟨?_, fun i rows hi => by cases hi⟩,
    fun hop => by cases hop⟩
  · rintro header rows ⟨⟩
    decide
  · rintro header rows ⟨⟩
    decide

theorem givesIn_customerOrders :
    customerOrders.Throughout .empty (Plan.GivesIn .empty {v | v ∈ orderValues}) .empty := by
  refine ⟨.of_run rfl (by decide), .of_run rfl (by decide), .of_run rfl (by decide),
    fun b' hb' => ?_⟩
  obtain rfl := hb'
  exact .of_run rfl (by decide)

/-- No customer is listed twice, so the orders of each may follow their own order. -/
theorem throughout_sortedBy_iff_customerOrders :
    customerOrders.header.order = [.asc 1, .asc 2] ∧
      customerOrders.Throughout .empty (Plan.TiesInOrder .empty) .empty ∧
      customerOrders.Throughout .empty (Plan.SortedBy .empty fun q => q.header.order) .empty := by
  have htrans : TransitiveOn {v | v ∈ orderValues} :=
    Value.transitiveOn_of_ne_float fun v hv x hx => by simp [hx, orderValues] at hv
  have hties : customerOrders.Throughout .empty (Plan.TiesInOrder .empty) .empty := by
    refine ⟨trivial, Plan.tiesInOrder_of_tieless ?_, trivial, fun _ _ => trivial⟩
    intro rows hrows
    obtain rfl := Except.ok.inj hrows
    exact (by decide : List.Pairwise (fun a c => SortOrder.compareRows [.asc 0] a c ≠ .eq)
      [[.int32 1], [.int32 2], [.int32 20]])
  exact ⟨rfl, hties,
    (Plan.throughout_sortedBy_iff htrans declaresOrder_customerOrders fits_customerOrders
      givesIn_customerOrders).2.2.mpr hties⟩

/-- The orders in the headers of a plan are by columns that are there and given rows come in theirs,
and yet the rows of the plan do not come in the order of its header. -/
def MissesOrder (p : Plan) : Prop :=
  p.DeclaresOrder .empty Set.univ ∧
    ∃ rows, p.run .empty .empty = .ok rows ∧ p.header.order.isSorted rows = false

/-- Ratings, the least first. -/
def ratings : Plan :=
  .source (.rows ⟨[⟨"rating", .int32, false⟩], [.asc 0]⟩ [[.int32 1], [.int32 2]])

/-- Two orders of one customer tie, and each has all ratings beside it: joined with them or looked
up.  Of two orders of one amount only the first has the least order beside it, and nulls come first.
Without a consistent comparison even a filter can lose the order: numbers that are compared exactly
or as floating point numbers, and rows without the column of the order. -/
theorem join_header_overstates_order :
    MissesOrder (.binary (.join .inner []) orders ratings) ∧
    MissesOrder (.binary (.apply .cross []) orders ratings) ∧
    MissesOrder ranking ∧
    MissesOrder (.unary (.filter (.compare .eq (.column 1) (.literal (.bool true))))
      (.source (.rows ⟨[⟨"n", .float64, false⟩, ⟨"keep", .bool, false⟩], [.asc 0]⟩
        [[.int64 9007199254740993, .bool true], [.float ⟨0x4340000000000000⟩, .bool false],
          [.int64 9007199254740992, .bool true]]))) ∧
    MissesOrder (.unary (.filter (.compare .eq (.column 0) (.literal (.int32 1))))
      (.source (.rows ⟨[⟨"a", .int32, false⟩, ⟨"b", .int32, false⟩], [.asc 1]⟩
        [[.int32 1, .int32 5], [.int32 2], [.int32 1, .int32 3]]))) := by
  refine ⟨⟨.of_isTruthful ?_ ?_, _, rfl, ?_⟩, ⟨.of_isTruthful ?_ ?_, _, rfl, ?_⟩,
    ⟨.of_isTruthful ?_ ?_, _, run_ranking, ?_⟩, ⟨.of_isTruthful ?_ ?_, _, rfl, ?_⟩,
    ⟨.of_isTruthful ?_ ?_, _, rfl, ?_⟩⟩
  all_goals decide

end Sample

end QueryPlanner
