import Mathlib.Data.Set.Basic
import QueryPlanner.Proofs.Key.Order

/-!
# The key order is a total preorder

Two integers are compared exactly, and a number that meets a floating point number is compared as
one.  The two ways agree on integers that are represented exactly, which are those up to `2 ^ 53`:
widening such an integer keeps its significand, so it strictly increases in the total order of
floating point numbers.  On values that mix no floating point number with a wider integer the key
order is therefore the order of single numbers, signed zeros and NaNs included, and it is
transitive.

## Main definitions

* `Value.isWide` — an integer that may be rounded when it is widened.
* `Value.mixesWide` — a floating point number and a wide integer are among some values.

## Main results

* `Double.exists_roundMagnitude_eq` — integers up to `2 ^ 53` keep their significand.
* `Double.totalCmp_ofInt` — widened integers are ordered as the integers.
* `Value.transitiveOn_of_not_mixed` — the key order is transitive on values that are not mixed.
* `Value.keyCmp_total_preorder` — **the key order is a total preorder that predicates agree with.**
-/

namespace QueryPlanner

namespace Double

/-! ### Widened integers -/

theorem twoPow_add (m n : Nat) : twoPow (m + n) = twoPow m * twoPow n := Nat.pow_add 2 m n

theorem twoPow_pos (n : Nat) : 0 < twoPow n := Nat.two_pow_pos n

theorem twoPow_succ (n : Nat) : twoPow (n + 1) = 2 * twoPow n := by
  rw [twoPow_add, Nat.mul_comm]
  rfl

theorem roundMagnitude_lt (m : Nat) (q : Int) : roundMagnitude m q < twoPow 63 := by
  have hinfinity : infinityMagnitude < twoPow 63 := by decide
  rw [roundMagnitude]
  split
  · exact twoPow_pos 63
  · exact Nat.lt_of_le_of_lt (Nat.min_le_right _ _) hinfinity

theorem rank_ofMagnitude (negative : Bool) {m : Nat} (h : m < twoPow 63) :
    (ofMagnitude negative m).rank = if negative then -(m : Int) - 1 else m := by
  have hpow : twoPow 63 = 9223372036854775808 := rfl
  rw [hpow] at h
  cases negative with
  | false =>
    -- The sign bit is clear, so the bits are the magnitude.
    have hbits : (ofMagnitude false m).bits.toNat = m := by
      simp only [ofMagnitude, Bool.false_eq_true, if_false]
      exact UInt64.toNat_ofNat_of_lt' (by simp only [UInt64.size]; omega)
    simp only [rank, isNegative, magnitude, hbits, hpow]
    simp only [Bool.false_eq_true, if_false]
    rw [if_neg (by simpa using h), Nat.mod_eq_of_lt h]
  | true =>
    -- The sign bit is set on top of the magnitude.
    have hbits : (ofMagnitude true m).bits.toNat = 9223372036854775808 + m := by
      simp only [ofMagnitude, if_true, hpow]
      exact UInt64.toNat_ofNat_of_lt' (by simp only [UInt64.size]; omega)
    simp only [rank, isNegative, magnitude, hbits, hpow]
    simp only [if_true]
    rw [if_pos (by simp), Nat.add_mod_left, Nat.mod_eq_of_lt h]

theorem twoPow_log2_le {m : Nat} (h : 0 < m) : twoPow m.log2 ≤ m :=
  Nat.log2_self_le (Nat.ne_of_gt h)

theorem lt_twoPow_log2 (m : Nat) : m < 2 * twoPow m.log2 := by
  rw [← twoPow_succ]
  exact Nat.lt_log2_self

/-- **Integers up to `2 ^ 53` keep their significand**: it is the integer, shifted until its highest
bit is the highest one of a significand. -/
theorem exists_roundMagnitude_eq {m : Nat} (hpos : 0 < m) (hle : m ≤ twoPow 53) :
    ∃ significand, roundMagnitude m 0 = (m.log2 + 1022) * twoPow 52 + significand ∧
      significand * twoPow m.log2 = m * twoPow 52 := by
  have hlow := twoPow_log2_le hpos
  by_cases hlog : m.log2 ≤ 52
  · have hsplit : twoPow (52 - m.log2) * twoPow m.log2 = twoPow 52 := by
      rw [← twoPow_add, Nat.sub_add_cancel hlog]
    have hsignificand : m * twoPow (52 - m.log2) < 2 * twoPow 52 := by
      rw [← hsplit, Nat.mul_left_comm, Nat.mul_comm m]
      exact Nat.mul_lt_mul_of_pos_left (lt_twoPow_log2 m) (twoPow_pos _)
    refine ⟨m * twoPow (52 - m.log2), ?_, by rw [Nat.mul_assoc, hsplit]⟩
    have hexponent : max ((m.log2 : Int) + 0 - 52) (-1074) = (m.log2 : Int) - 52 := by omega
    have hshift : ((0 : Int) - ((m.log2 : Int) - 52)).toNat = 52 - m.log2 := by omega
    have hfield : ((m.log2 : Int) - 52 + 1074).toNat = m.log2 + 1022 := by omega
    have hfits : (m.log2 + 1022) * twoPow 52 + m * twoPow (52 - m.log2) ≤ infinityMagnitude := by
      have hpow : twoPow 52 = 4503599627370496 := rfl
      rw [hpow] at hsignificand
      rw [infinityMagnitude, hpow]
      omega
    simp only [roundMagnitude, if_neg (Nat.ne_of_gt hpos), hexponent]
    rw [if_pos (by omega), hshift, hfield, Nat.min_eq_left hfits]
  · -- Only `2 ^ 53` itself has a higher bit; it is even, so nothing is rounded.
    have hmax : twoPow 53 ≤ m := by
      refine Nat.le_trans ?_ hlow
      exact Nat.pow_le_pow_right (by decide) (by omega)
    obtain rfl : m = twoPow 53 := Nat.le_antisymm hle hmax
    exact ⟨twoPow 52, by decide, by decide⟩

/-- Magnitudes of larger integers are larger, as long as nothing is rounded. -/
theorem roundMagnitude_lt_of_lt {m n : Nat} (hlt : m < n) (hn : n ≤ twoPow 53) :
    roundMagnitude m 0 < roundMagnitude n 0 := by
  have hnpos : 0 < n := Nat.zero_lt_of_lt hlt
  obtain ⟨t, ht, htn⟩ := exists_roundMagnitude_eq hnpos hn
  have htlow : twoPow 52 ≤ t := by
    refine Nat.le_of_mul_le_mul_right ?_ (twoPow_pos n.log2)
    rw [htn, Nat.mul_comm]
    exact Nat.mul_le_mul_right _ (twoPow_log2_le hnpos)
  rcases Nat.eq_zero_or_pos m with rfl | hmpos
  · rw [ht]
    have := twoPow_pos 52
    simp only [roundMagnitude, if_true]
    omega
  obtain ⟨s, hs, hsm⟩ := exists_roundMagnitude_eq hmpos (Nat.le_trans (Nat.le_of_lt hlt) hn)
  have hshigh : s < 2 * twoPow 52 := by
    refine Nat.lt_of_mul_lt_mul_right (a := twoPow m.log2) ?_
    rw [hsm, Nat.mul_right_comm]
    exact Nat.mul_lt_mul_of_pos_right (lt_twoPow_log2 m) (twoPow_pos 52)
  have hle : m.log2 ≤ n.log2 :=
    (Nat.le_log2 (Nat.ne_of_gt hnpos)).mpr (Nat.le_trans (twoPow_log2_le hmpos) (Nat.le_of_lt hlt))
  rw [hs, ht]
  rcases Nat.lt_or_eq_of_le hle with hlog | hlog
  · -- A higher bit is worth more than all bits of the significand.
    have hfield : (m.log2 + 1022 + 1) * twoPow 52 ≤ (n.log2 + 1022) * twoPow 52 :=
      Nat.mul_le_mul_right _ (by omega)
    rw [Nat.add_mul] at hfield
    omega
  · have hst : s < t := by
      refine Nat.lt_of_mul_lt_mul_right (a := twoPow n.log2) ?_
      rw [htn, ← hlog, hsm]
      exact Nat.mul_lt_mul_of_pos_right hlt (twoPow_pos 52)
    rw [hlog]
    omega

theorem rank_ofInt (n : Int) : (ofInt n).rank =
    if n < 0 then -(roundMagnitude n.natAbs 0 : Int) - 1
    else (roundMagnitude n.natAbs 0 : Int) := by
  rw [ofInt, ofParts, rank_ofMagnitude _ (roundMagnitude_lt _ _)]
  simp only [decide_eq_true_eq]

theorem rank_ofInt_lt {m n : Int} (hlt : m < n) (hm : m.natAbs ≤ twoPow 53)
    (hn : n.natAbs ≤ twoPow 53) : (ofInt m).rank < (ofInt n).rank := by
  rw [rank_ofInt, rank_ofInt]
  by_cases hmneg : m < 0
  · by_cases hnneg : n < 0
    · have := roundMagnitude_lt_of_lt (m := n.natAbs) (n := m.natAbs) (by omega) hm
      rw [if_pos hmneg, if_pos hnneg]
      omega
    · rw [if_pos hmneg, if_neg hnneg]
      omega
  · have := roundMagnitude_lt_of_lt (m := m.natAbs) (n := n.natAbs) (by omega) hn
    rw [if_neg hmneg, if_neg (by omega)]
    omega

/-- **Widened integers are ordered as the integers**, as long as nothing is rounded. -/
theorem totalCmp_ofInt {m n : Int} (hm : m.natAbs ≤ twoPow 53) (hn : n.natAbs ≤ twoPow 53) :
    totalCmp (ofInt m) (ofInt n) = compare m n := by
  rcases Int.lt_trichotomy m n with h | rfl | h
  · rw [totalCmp, Std.compare_eq_lt.mpr (rank_ofInt_lt h hm hn), Std.compare_eq_lt.mpr h]
  · rw [totalCmp, Std.compare_self, Std.compare_self]
  · rw [totalCmp, Std.compare_eq_gt.mpr (rank_ofInt_lt h hn hm), Std.compare_eq_gt.mpr h]

end Double

namespace Value

/-! ### Values that are not mixed -/

/-- An integer that may be rounded when it is widened; those of the smaller width never are. -/
def isWide : Value → Bool
  | .int64 n => decide (Double.twoPow 53 < n.toInt.natAbs)
  | _ => false

/-- Whether a floating point number and a wide integer are among some values. -/
def mixesWide (vs : List Value) : Bool := vs.any isFloat && vs.any isWide

/-- Integers that are not wide are represented exactly. -/
theorem natAbs_le_of_int? {v : Value} {n : Int} (h : v.int? = some n) (hv : v.isWide = false) :
    n.natAbs ≤ Double.twoPow 53 := by
  cases v with
  | int32 m =>
    obtain rfl := Option.some.inj h
    have hlow := m.le_toInt
    have hhigh := m.toInt_lt
    have hpow : Double.twoPow 53 = 9007199254740992 := rfl
    rw [hpow]
    omega
  | int64 m =>
    obtain rfl := Option.some.inj h
    exact Nat.le_of_not_lt (of_decide_eq_false hv)
  | _ => cases h

theorem double?_of_int? {v : Value} {n : Int} (h : v.int? = some n) :
    v.double? = some (Double.ofInt n) := by
  cases v with
  | int32 m | int64 m =>
    obtain rfl := Option.some.inj h
    rfl
  | _ => cases h

/-- Numbers are compared inside their class. -/
theorem keyCmp_of_numeric {a b : Value} (ha : a.cls = .numeric) (hb : b.cls = .numeric) :
    a.keyCmp b = a.numericCmp b := by
  cases a <;> cases ha <;> cases b <;> cases hb <;> rfl

/-- Numbers that are not wide are ordered as floating point numbers, be they integers or not. -/
theorem keyCmp_eq_totalCmp {a b : Value} (ha : a.cls = .numeric) (hb : b.cls = .numeric)
    (hwa : a.isWide = false) (hwb : b.isWide = false) :
    a.keyCmp b = Double.totalCmp (a.double?.getD .zero) (b.double?.getD .zero) := by
  rw [keyCmp_of_numeric ha hb, numericCmp]
  split
  · next m n hm hn =>
    rw [double?_of_int? hm, double?_of_int? hn]
    exact (Double.totalCmp_ofInt (natAbs_le_of_int? hm hwa) (natAbs_le_of_int? hn hwb)).symm
  · rfl

/-- The key order is transitive on values among which there is no wide integer. -/
theorem transitiveOn_of_not_isWide {S : Set Value} (h : ∀ v ∈ S, v.isWide = false) :
    TransitiveOn S := by
  have hnumbers : TransitiveOn {v | v.cls = .numeric ∧ v.isWide = false} := by
    rintro a ⟨ha, hwa⟩ b ⟨hb, hwb⟩ c ⟨hc, hwc⟩ hab hbc
    rw [keyCmp_eq_totalCmp ha hb hwa hwb, Double.totalCmp] at hab
    rw [keyCmp_eq_totalCmp hb hc hwb hwc, Double.totalCmp] at hbc
    rw [keyCmp_eq_totalCmp ha hc hwa hwc, Double.totalCmp]
    exact Std.TransCmp.isLE_trans hab hbc
  refine hnumbers.keySpace.trans.mono fun v hv => ?_
  by_cases hn : v.cls = .numeric
  · exact Or.inl ⟨hn, h v hv⟩
  · exact Or.inr hn

/-- **The key order is transitive on values that mix no floating point number with a wide integer.**
-/
theorem transitiveOn_of_not_mixed {vs : List Value} (h : mixesWide vs = false) :
    TransitiveOn {v | v ∈ vs} := by
  rcases Bool.and_eq_false_iff.mp h with hfloat | hwide
  · refine transitiveOn_of_ne_float fun v hv x hx => ?_
    have := List.any_eq_false.mp hfloat v hv
    rw [hx] at this
    exact this rfl
  · exact transitiveOn_of_not_isWide fun v hv =>
      Bool.eq_false_iff.mpr (List.any_eq_false.mp hwide v hv)

/-- The comparison of predicates is the key order, where it is defined. -/
theorem compare?_cases (a b : Value) :
    a.compare? b = none ∧ (a = .null ∨ b = .null ∨ a.cls ≠ b.cls) ∨
      a.compare? b = some (a.keyCmp b) ∧ a ≠ .null ∧ b ≠ .null ∧ a.cls = b.cls := by
  have hnull : ∀ v : Value, v.isNull = true ↔ v = .null := fun v => by cases v <;> simp [isNull]
  rw [compare?]
  split
  · next h =>
    rw [Bool.or_eq_true, Bool.or_eq_true, hnull, hnull, bne_iff_ne, or_assoc] at h
    exact Or.inl ⟨rfl, h⟩
  · next h =>
    rw [Bool.or_eq_true, Bool.or_eq_true, hnull, hnull, bne_iff_ne, not_or, not_or, not_not] at h
    exact Or.inr ⟨rfl, h.1.1, h.1.2, h.2⟩

/-- **The key order is a total preorder that predicates agree with.**  Compared from the other side
the answer is the reverse; the comparison of predicates gives the same answer, and none for nulls
and values of different classes only; and two steps that do not descend do not descend together, if
they mix no floating point number with an integer beyond `2 ^ 53`. -/
theorem keyCmp_total_preorder (a b c : Value) :
    b.keyCmp a = (a.keyCmp b).swap ∧
    (a.compare? b = none ∧ (a = .null ∨ b = .null ∨ a.cls ≠ b.cls) ∨
      a.compare? b = some (a.keyCmp b) ∧ a ≠ .null ∧ b ≠ .null ∧ a.cls = b.cls) ∧
    (mixesWide [a, b, c] = false → a.keyCmp b ≠ .gt → b.keyCmp c ≠ .gt → a.keyCmp c ≠ .gt) := by
  refine ⟨(keyCmp_swap a b).symm, compare?_cases a b, fun hmixed hab hbc => ?_⟩
  have htrans := transitiveOn_of_not_mixed hmixed a (by simp) b (by simp) c (by simp)
  exact Ordering.isLE_iff_ne_gt.mp
    (htrans (Ordering.isLE_iff_ne_gt.mpr hab) (Ordering.isLE_iff_ne_gt.mpr hbc))

/-- The negative zero comes before the largest integer that is no wide one, and that integer is
equal to the floating point number of its value. -/
theorem keyCmp_total_preorder_largest :
    let a := Value.float ⟨0x8000000000000000⟩
    let b := Value.int64 9007199254740992
    let c := Value.float ⟨0x4340000000000000⟩
    mixesWide [a, b, c] = false ∧ a.keyCmp b = .lt ∧ b.keyCmp c = .eq ∧ a.keyCmp c ≠ .gt := by
  intro a b c
  have hmixed : mixesWide [a, b, c] = false := by decide
  have hab : a.keyCmp b = .lt := by decide
  have hbc : b.keyCmp c = .eq := by decide
  refine ⟨hmixed, hab, hbc, ?_⟩
  exact (keyCmp_total_preorder a b c).2.2 hmixed (by rw [hab]; decide) (by rw [hbc]; decide)

/-- The next integer is rounded to the same floating point number, and the order is not transitive.
-/
example :
    let a := Value.int64 9007199254740993
    let b := Value.float ⟨0x4340000000000000⟩
    let c := Value.int64 9007199254740992
    mixesWide [a, b, c] = true ∧ a.keyCmp b = .eq ∧ b.keyCmp c = .eq ∧ a.keyCmp c = .gt := by
  decide

end Value

end QueryPlanner
