import Mathlib.Data.List.Forall2
import Mathlib.Data.List.Pairwise
import QueryPlanner.Plan.SortOrder
import QueryPlanner.Proofs.Key.Order
import QueryPlanner.Proofs.StableSort

/-!
# Comparing rows by sort orders

A sort order compares rows column by column, and a column that a row does not have compares equal to
everything.  The comparison is therefore a total preorder only on rows that agree on which of the
columns they have, with values on which the key order is transitive.

## Main definitions

* `SortOrder.le` — the comparison that rows are sorted by.
* `SortOrder.Tieless` — no two rows compare equal.
* `SortOrder.Compares` — rows that agree on the columns of an order, with values in a set.

## Main results

* `SortOrder.Compares.ordersOn` — such rows are ordered by a total preorder.
* `SortOrder.compareRows_of_keyEq` — rows with equal keys compare equal under every order.
-/

namespace QueryPlanner

open Value (TransitiveOn)

namespace SortOrder

/-- The comparison that rows are sorted by. -/
def le (order : SortOrder) (a b : Row) : Bool := order.compareRows a b != .gt

theorem sort_eq_mergeSort (order : SortOrder) (rows : List Row) :
    order.sort rows = rows.mergeSort order.le := rfl

theorem le_eq_isLE (order : SortOrder) (a b : Row) :
    order.le a b = (order.compareRows a b).isLE := by
  unfold le
  cases order.compareRows a b <;> rfl

@[simp] theorem mem_sort {order : SortOrder} {rows : List Row} {row : Row} :
    row ∈ order.sort rows ↔ row ∈ rows := List.mem_mergeSort

theorem sort_perm (order : SortOrder) (rows : List Row) : (order.sort rows).Perm rows :=
  List.mergeSort_perm rows _

/-! ### Comparison from both sides -/

theorem compareBy_swap (k : SortKey) (a b : Row) : (compareBy k a b).swap = compareBy k b a := by
  unfold compareBy
  cases a[k.column]? <;> cases b[k.column]? <;> cases k.direction <;> simp [Value.keyCmp_swap]

theorem compareRows_swap (order : SortOrder) (a b : Row) :
    (order.compareRows a b).swap = order.compareRows b a := by
  induction order with
  | nil => rfl
  | cons k ks ih => rw [compareRows, compareRows, Ordering.swap_then, compareBy_swap, ih]

/-- Rows compare equal if each is not after the other. -/
theorem compareRows_eq_of_le {order : SortOrder} {a b : Row} (hab : order.le a b)
    (hba : order.le b a) : order.compareRows a b = .eq := by
  rw [le, ← compareRows_swap] at hba
  rw [le] at hab
  cases h : order.compareRows a b <;> simp [h] at hab hba ⊢

/-! ### Rows without ties -/

/-- No two rows compare equal. -/
def Tieless (order : SortOrder) (rows : List Row) : Prop :=
  rows.Pairwise fun a c => order.compareRows a c ≠ .eq

/-- Ties among given rows can be looked for. -/
instance (order : SortOrder) (rows : List Row) : Decidable (order.Tieless rows) :=
  inferInstanceAs (Decidable (rows.Pairwise _))

namespace Tieless

variable {order : SortOrder} {rows given : List Row}

theorem symm (order : SortOrder) : Std.Symm fun a c : Row => order.compareRows a c ≠ .eq := by
  refine ⟨fun x y hxy hyx => hxy ?_⟩
  rw [← compareRows_swap, hyx]
  rfl

theorem of_perm (h : order.Tieless rows) (hperm : given.Perm rows) : order.Tieless given :=
  (hperm.pairwise_iff fun {x y} hxy => (symm order).symm x y hxy).mpr h

/-- Rows that are not after each other are the same row. -/
theorem eq_of_le (h : order.Tieless rows) {a c : Row} (ha : a ∈ rows) (hc : c ∈ rows)
    (hac : order.le a c) (hca : order.le c a) : a = c := by
  by_contra hne
  have := symm order
  exact List.Pairwise.forall h ha hc hne (compareRows_eq_of_le hac hca)

end Tieless

/-! ### Rows with the columns of an order -/

/-- Rows that agree on which columns of an order they have, with values in a set. -/
def Compares (S : Set Value) (order : SortOrder) (T : Set Row) : Prop :=
  ∀ k ∈ order, (∀ row ∈ T, ∃ v ∈ S, row[k.column]? = some v) ∨ ∀ row ∈ T, row[k.column]? = none

theorem compares_of_width (S : Set Value) (order : SortOrder) (width : Nat) :
    order.Compares S {row | row.length = width ∧ ∀ v ∈ row, v ∈ S} := by
  intro k _
  by_cases hk : k.column < width
  · refine Or.inl fun row hrow => ?_
    have hlt : k.column < row.length := by rw [hrow.1]; exact hk
    exact ⟨row[k.column], hrow.2 _ (List.getElem_mem hlt), List.getElem?_eq_getElem hlt⟩
  · refine Or.inr fun row hrow => ?_
    rw [List.getElem?_eq_none_iff, hrow.1]
    exact Nat.le_of_not_lt hk

/-- Comparing by one more column keeps a comparison transitive. -/
theorem isLE_then_trans {T : Set Row} {c d : Row → Row → Ordering}
    (hswap : ∀ x y, (c x y).swap = c y x)
    (hc : ∀ x ∈ T, ∀ y ∈ T, ∀ z ∈ T, (c x y).isLE → (c y z).isLE → (c x z).isLE)
    (hd : ∀ x ∈ T, ∀ y ∈ T, ∀ z ∈ T, (d x y).isLE → (d y z).isLE → (d x z).isLE) :
    ∀ x ∈ T, ∀ y ∈ T, ∀ z ∈ T, ((c x y).then (d x y)).isLE → ((c y z).then (d y z)).isLE →
      ((c x z).then (d x z)).isLE := by
  intro x hx y hy z hz hxy hyz
  rw [Ordering.isLE_then_iff_and] at hxy hyz ⊢
  have hxz := hc x hx y hy z hz hxy.1 hyz.1
  refine ⟨hxz, ?_⟩
  cases h : c x z with
  | lt => exact Or.inl rfl
  | gt => simp [h] at hxz
  | eq =>
    -- All three tie in the first comparison, so the second one decides between each two.
    have hzx : (c z x).isLE := by rw [← hswap, h]; rfl
    have hyx := hc y hy z hz x hx hyz.1 hzx
    have hzy := hc z hz x hx y hy hzx hxy.1
    have hdxy : (d x y).isLE := by
      refine hxy.2.resolve_left fun hlt => ?_
      rw [← hswap, hlt] at hyx
      simp at hyx
    have hdyz : (d y z).isLE := by
      refine hyz.2.resolve_left fun hlt => ?_
      rw [← hswap, hlt] at hzy
      simp at hzy
    exact Or.inr (hd x hx y hy z hz hdxy hdyz)

/-- Comparing by one column is transitive on rows that all have it, or all lack it. -/
theorem isLE_compareBy_trans {S : Set Value} (hS : TransitiveOn S) {T : Set Row} {k : SortKey}
    (h : (∀ row ∈ T, ∃ v ∈ S, row[k.column]? = some v) ∨ ∀ row ∈ T, row[k.column]? = none) :
    ∀ x ∈ T, ∀ y ∈ T, ∀ z ∈ T, (compareBy k x y).isLE → (compareBy k y z).isLE →
      (compareBy k x z).isLE := by
  intro x hx y hy z hz hxy hyz
  rcases h with h | h
  · obtain ⟨u, hu, hxu⟩ := h x hx
    obtain ⟨v, hv, hyv⟩ := h y hy
    obtain ⟨w, hw, hzw⟩ := h z hz
    simp only [compareBy, hxu, hyv, hzw] at hxy hyz ⊢
    -- Descending order swaps the two comparisons.
    cases hdir : k.direction with
    | ascending =>
      simp only [hdir] at hxy hyz ⊢
      exact hS u hu v hv w hw hxy hyz
    | descending =>
      simp only [hdir, Value.keyCmp_swap] at hxy hyz ⊢
      exact hS w hw v hv u hu hyz hxy
  · -- No row has the column, so all rows tie.
    have hno : compareBy k x z = .eq := by
      simp only [compareBy, h x hx]
      cases k.direction <;> rfl
    rw [hno]
    rfl

theorem Compares.isLE_compareRows_trans {S : Set Value} (hS : TransitiveOn S) {T : Set Row} :
    ∀ {order : SortOrder}, order.Compares S T → ∀ x ∈ T, ∀ y ∈ T, ∀ z ∈ T,
      (order.compareRows x y).isLE → (order.compareRows y z).isLE →
      (order.compareRows x z).isLE := by
  intro order
  induction order with
  | nil => intro _ x _ y _ z _ _ _; rfl
  | cons k ks ih =>
    intro h
    exact isLE_then_trans (compareBy_swap k) (isLE_compareBy_trans hS (h k (by simp)))
      (ih fun k' hk' => h k' (by simp [hk']))

/-- **Rows that agree on the columns of an order are ordered by a total preorder.** -/
theorem Compares.ordersOn {S : Set Value} (hS : TransitiveOn S) {T : Set Row} {order : SortOrder}
    (h : order.Compares S T) : OrdersOn order.le T where
  total := by
    intro a _ b _
    rw [le, le, ← compareRows_swap order a b]
    cases order.compareRows a b <;> simp
  trans := by
    intro a ha b hb c hc
    rw [le_eq_isLE, le_eq_isLE, le_eq_isLE]
    exact h.isLE_compareRows_trans hS a ha b hb c hc

end SortOrder

/-! ### Rows with equal keys -/

/-- Rows with equal keys have the same columns, with equal keys in each. -/
theorem Row.keyEq_iff {a b : Row} : Row.keyEq a b ↔
    List.Forall₂ (fun x y => Value.keyCmp x y = .eq) a b := by
  induction a generalizing b with
  | nil => cases b <;> simp [Row.keyEq]
  | cons x a ih =>
    cases b with
    | nil => simp [Row.keyEq]
    | cons y b =>
      rw [List.forall₂_cons, ← ih]
      simp [Row.keyEq, Value.keyEq, and_left_comm]

theorem Row.keyEq_self (a : Row) : Row.keyEq a a = true := by
  rw [Row.keyEq_iff, List.forall₂_same]
  simp

theorem Row.keyEq_comm (a b : Row) : Row.keyEq a b = Row.keyEq b a := by
  have hturn : ∀ {x y : Row}, Row.keyEq x y → Row.keyEq y x := by
    intro x y h
    rw [Row.keyEq_iff] at h ⊢
    refine h.flip.imp fun v w hvw => ?_
    rw [← Value.keyCmp_swap, hvw]
    rfl
  exact Bool.eq_iff_iff.mpr ⟨hturn, hturn⟩

/-- Rows that are told apart by their keys are equal if their keys are. -/
theorem Row.eq_of_keyEq {rows : List Row} (h : rows.Pairwise fun a c => ¬ Row.keyEq a c) :
    ∀ a ∈ rows, ∀ c ∈ rows, Row.keyEq a c → a = c := by
  have hsymm : Std.Symm fun a c : Row => ¬ Row.keyEq a c :=
    ⟨fun x y hxy hyx => hxy (Row.keyEq_comm y x ▸ hyx)⟩
  intro a ha c hc hkey
  by_contra hne
  exact h.forall ha hc hne hkey

/-- Rows with equal keys compare equal under every order. -/
theorem SortOrder.compareRows_of_keyEq (order : SortOrder) {a b : Row} (h : Row.keyEq a b) :
    order.compareRows a b = .eq := by
  have hcolumn : ∀ k : SortKey, compareBy k a b = .eq := by
    intro k
    have hlen := (Row.keyEq_iff.mp h).length_eq
    by_cases hk : k.column < a.length
    · have hval := List.Forall₂.get (Row.keyEq_iff.mp h) hk (hlen ▸ hk)
      simp only [List.get_eq_getElem] at hval
      simp only [compareBy, List.getElem?_eq_getElem hk, List.getElem?_eq_getElem (hlen ▸ hk), hval]
      cases k.direction <;> rfl
    · have hnone : a[k.column]? = none := List.getElem?_eq_none_iff.mpr (Nat.le_of_not_lt hk)
      simp only [compareBy, hnone]
      cases k.direction <;> rfl
  induction order with
  | nil => rfl
  | cons k ks ih => rw [compareRows, hcolumn k, ih]; rfl

end QueryPlanner
