import Mathlib.Data.Set.Basic
import QueryPlanner.Value

/-!
# The key order of values

The key order compares integers exactly and everything else numeric as floating point numbers, so an
integer that is rounded when it meets a floating point number can break transitivity.  Inside each
of the other classes the order is a linear one.  Statements about sorted keys therefore speak of a
set of values on which the order is transitive; such a set can always be enlarged by the values that
are no numbers.

## Main definitions

* `Value.TransitiveOn` — the key order is transitive on a set of values.
* `Value.KeySpace` — a set like that which holds everything that is not a number.
* `Value.withOthers` — a set of values with everything that is not a number.

## Main results

* `Value.keyCmp_swap` — the key order compared from the other side.
* `Value.TransitiveOn.keySpace` — transitivity is not lost by adding values that are no numbers.
* `Value.transitiveOn_of_ne_float` — without floating point numbers there is nothing to lose.
-/

namespace QueryPlanner

namespace Value

/-! ### Comparison from both sides -/

theorem swap_compare {α : Type} [Ord α] [Std.OrientedOrd α] (a b : α) :
    (compare a b).swap = compare b a := Std.OrientedCmp.eq_swap.symm

theorem numericCmp_swap (a b : Value) : (a.numericCmp b).swap = b.numericCmp a := by
  unfold numericCmp Double.totalCmp
  cases a.int? with
  | none => cases b.int? <;> exact swap_compare _ _
  | some m => cases b.int? <;> exact swap_compare _ _

/-- Comparing from the other side turns the answer round. -/
theorem keyCmp_swap (a b : Value) : (a.keyCmp b).swap = b.keyCmp a := by
  unfold keyCmp
  rw [Ordering.swap_then]
  congr 1
  · exact swap_compare _ _
  · cases a <;> cases b <;> first
      | rfl
      | exact numericCmp_swap _ _
      | exact swap_compare _ _

/-- Comparing keys the other way round gives the opposite. -/
instance : Std.OrientedCmp keyCmp := ⟨(keyCmp_swap _ _).symm⟩

@[simp] theorem keyCmp_self (a : Value) : a.keyCmp a = .eq := Std.ReflCmp.compare_self

/-! ### Classes in the key order -/

theorem rank_cls_injective {c d : ValueClass} (h : c.rank = d.rank) : c = d := by
  cases c <;> cases d <;> first | rfl | simp [ValueClass.rank] at h

/-- A value of a lower class comes first. -/
theorem keyCmp_of_rank_lt {a b : Value} (h : a.cls.rank < b.cls.rank) : a.keyCmp b = .lt := by
  have hlt : compare a.cls.rank b.cls.rank = .lt := Nat.compare_eq_lt.mpr h
  simp [keyCmp, hlt]

/-- Classes do not decrease along the key order. -/
theorem rank_le_of_isLE {a b : Value} (h : (a.keyCmp b).isLE) : a.cls.rank ≤ b.cls.rank := by
  by_contra hlt
  have hgt : b.keyCmp a = .lt := keyCmp_of_rank_lt (Nat.lt_of_not_le hlt)
  rw [← keyCmp_swap, hgt] at h
  exact absurd h (by decide)

/-- Values that are equal under the key order have the same class. -/
theorem cls_eq_of_keyCmp_eq {a b : Value} (h : a.keyCmp b = .eq) : a.cls = b.cls := by
  have hab : (a.keyCmp b).isLE := by rw [h]; rfl
  have hba : (b.keyCmp a).isLE := by rw [← keyCmp_swap, h]; rfl
  exact rank_cls_injective (Nat.le_antisymm (rank_le_of_isLE hab) (rank_le_of_isLE hba))

/-- Null is the lowest key. -/
theorem isLE_null_keyCmp (a : Value) : (Value.null.keyCmp a).isLE := by
  cases a <;> rfl

/-! ### Transitivity -/

/-- The key order is transitive on a set of values. -/
def TransitiveOn (S : Set Value) : Prop :=
  ∀ a ∈ S, ∀ b ∈ S, ∀ c ∈ S, (a.keyCmp b).isLE → (b.keyCmp c).isLE → (a.keyCmp c).isLE

/-- The values of a set together with all values that are not numbers. -/
def withOthers (S : Set Value) : Set Value := {v | v ∈ S ∨ v.cls ≠ .numeric}

theorem TransitiveOn.mono {S T : Set Value} (hT : TransitiveOn T) (h : S ⊆ T) : TransitiveOn S :=
  fun a ha b hb c hc => hT a (h ha) b (h hb) c (h hc)

/-- On a set where the key order is transitive, a strict step before another one stays strict. -/
theorem TransitiveOn.lt_of_lt_of_isLE {S : Set Value} (hS : TransitiveOn S) {a b c : Value}
    (ha : a ∈ S) (hb : b ∈ S) (hc : c ∈ S) (hab : a.keyCmp b = .lt) (hbc : (b.keyCmp c).isLE) :
    a.keyCmp c = .lt := by
  have hba : ¬ (b.keyCmp a).isLE := by rw [← keyCmp_swap, hab]; decide
  have hca : ¬ (c.keyCmp a).isLE := fun h => hba (hS b hb c hc a ha hbc h)
  rw [← keyCmp_swap] at hca
  cases h : a.keyCmp c <;> simp [h] at hca ⊢

/-- On a set where the key order is transitive, a strict step after another one stays strict. -/
theorem TransitiveOn.lt_of_isLE_of_lt {S : Set Value} (hS : TransitiveOn S) {a b c : Value}
    (ha : a ∈ S) (hb : b ∈ S) (hc : c ∈ S) (hab : (a.keyCmp b).isLE) (hbc : b.keyCmp c = .lt) :
    a.keyCmp c = .lt := by
  have hcb : ¬ (c.keyCmp b).isLE := by rw [← keyCmp_swap, hbc]; decide
  have hca : ¬ (c.keyCmp a).isLE := fun h => hcb (hS c hc a ha b hb h hab)
  rw [← keyCmp_swap] at hca
  cases h : a.keyCmp c <;> simp [h] at hca ⊢

/-- On a set where the key order is transitive, values equal to a common one are equal. -/
theorem TransitiveOn.eq_trans {S : Set Value} (hS : TransitiveOn S) {a b c : Value}
    (ha : a ∈ S) (hb : b ∈ S) (hc : c ∈ S) (hab : a.keyCmp b = .eq) (hbc : b.keyCmp c = .eq) :
    a.keyCmp c = .eq := by
  have hac : (a.keyCmp c).isLE := hS a ha b hb c hc (by rw [hab]; rfl) (by rw [hbc]; rfl)
  have hca : (c.keyCmp a).isLE :=
    hS c hc b hb a ha (by rw [← keyCmp_swap, hbc]; rfl) (by rw [← keyCmp_swap, hab]; rfl)
  rw [← keyCmp_swap] at hca
  cases h : a.keyCmp c <;> simp [h] at hac hca ⊢

/-- Inside a class other than the numbers the key order is transitive. -/
theorem isLE_keyCmp_trans_of_cls {a b c : Value} (hab : a.cls = b.cls) (hbc : b.cls = c.cls)
    (hn : a.cls ≠ .numeric) (h : (a.keyCmp b).isLE) (h' : (b.keyCmp c).isLE) :
    (a.keyCmp c).isLE := by
  cases a <;> cases b <;> simp [cls] at hab hn <;> cases c <;> simp [cls] at hbc
  · exact h
  all_goals
    simp only [keyCmp, cls, Std.ReflCmp.compare_self, Ordering.eq_then] at h h' ⊢
    exact Std.TransCmp.isLE_trans h h'

/-- A set of values in which keys are compared: the key order is transitive on it, and all values
that are not numbers belong to it. -/
structure KeySpace (S : Set Value) : Prop where
  trans : TransitiveOn S
  others : ∀ v : Value, v.cls ≠ .numeric → v ∈ S

namespace KeySpace

variable {S : Set Value}

theorem null (hS : KeySpace S) : Value.null ∈ S := hS.others _ (by simp [cls])

theorem text (hS : KeySpace S) (s : String) : Value.text s ∈ S := hS.others _ (by simp [cls])

end KeySpace

/-- Adding values that are no numbers keeps the key order transitive. -/
theorem TransitiveOn.keySpace {S : Set Value} (hS : TransitiveOn S) :
    KeySpace (Value.withOthers S) where
  others := fun _ h => Or.inr h
  trans := by
    intro a ha b hb c hc hab hbc
    have hrab := rank_le_of_isLE hab
    have hrbc := rank_le_of_isLE hbc
    by_cases hlt : a.cls.rank < c.cls.rank
    · rw [keyCmp_of_rank_lt hlt]
      rfl
    -- All three classes are the same, so either all are numbers of the set or none is a number.
    have hcab : a.cls = b.cls := rank_cls_injective (by omega)
    have hcbc : b.cls = c.cls := rank_cls_injective (by omega)
    by_cases hn : a.cls = .numeric
    · have hbn : b.cls = .numeric := hcab ▸ hn
      have hcn : c.cls = .numeric := hcbc ▸ hbn
      exact hS a (ha.resolve_right (not_not_intro hn)) b (hb.resolve_right (not_not_intro hbn)) c
        (hc.resolve_right (not_not_intro hcn)) hab hbc
    · exact isLE_keyCmp_trans_of_cls hcab hcbc hn hab hbc

/-- Integers of both widths are compared as the numbers they stand for. -/
theorem transitiveOn_integers : TransitiveOn {v | v.int?.isSome} := by
  have hkey : ∀ {a b : Value} {m n : Int}, a.int? = some m → b.int? = some n →
      a.keyCmp b = compare m n := by
    intro a b m n ha hb
    cases a <;> simp [int?] at ha <;> cases b <;> simp [int?] at hb <;>
      simp [keyCmp, cls, numericCmp, int?, ha, hb]
  intro a ha b hb c hc hab hbc
  obtain ⟨l, hl⟩ := Option.isSome_iff_exists.mp ha
  obtain ⟨m, hm⟩ := Option.isSome_iff_exists.mp hb
  obtain ⟨n, hn⟩ := Option.isSome_iff_exists.mp hc
  rw [hkey hl hm] at hab
  rw [hkey hm hn] at hbc
  rw [hkey hl hn]
  exact Std.TransCmp.isLE_trans hab hbc

/-- **Without floating point numbers the key order is transitive.** -/
theorem transitiveOn_of_ne_float {S : Set Value} (h : ∀ v ∈ S, ∀ x, v ≠ .float x) :
    TransitiveOn S := by
  refine transitiveOn_integers.keySpace.trans.mono fun v hv => ?_
  cases v with
  | int32 n => exact Or.inl rfl
  | int64 n => exact Or.inl rfl
  | float x => exact absurd rfl (h _ hv x)
  | _ => exact Or.inr (by simp [cls])

/-- Whether a value is a floating point number. -/
def isFloat : Value → Bool
  | .float _ => true
  | _ => false

theorem transitiveOn_not_isFloat : TransitiveOn {v | v.isFloat = false} :=
  transitiveOn_of_ne_float fun v hv x hx => by simp [hx, isFloat] at hv

end Value

end QueryPlanner
