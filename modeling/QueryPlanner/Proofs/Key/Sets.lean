import QueryPlanner.Key.IntervalSet
import QueryPlanner.Proofs.Key.Order
import QueryPlanner.Proofs.StableSort

/-!
# Membership in sets of keys

Merging, intersecting and complementing interval sets, read through membership of a key.  Everything
takes place inside a set of values on which the key order is transitive and which holds null, the
lowest key.

## Main definitions

* `Bound.Within`, `Interval.Within`, `IntervalSet.Within` — the values of the bounds lie in a set.
* `IntervalSet.Separated` — intervals that hold something and follow each other with a gap between.

## Main results

* `IntervalSet.contains_ofIntervals` — a set built from intervals holds the keys of the intervals.
* `IntervalSet.contains_union`, `IntervalSet.contains_intersect`, `IntervalSet.contains_complement`
  — the set operations on keys.
-/

namespace QueryPlanner

open Value (TransitiveOn KeySpace)

namespace Bound

/-! ### The order of bounds -/

/-- The value of a bound, if it has one, lies in a set. -/
def Within (S : Set Value) : Bound → Prop
  | .key v _ => v ∈ S
  | _ => True

theorem cmp_swap (a b : Bound) : (a.cmp b).swap = b.cmp a := by
  cases a <;> cases b <;> try rfl
  simp only [cmp, Ordering.swap_then, Value.keyCmp_swap, Value.swap_compare]

@[simp] theorem bottom_le (b : Bound) : bottom.le b = true := by cases b <;> rfl

@[simp] theorem le_top (a : Bound) : a.le top = true := by cases a <;> rfl

@[simp] theorem key_le_bottom (v : Value) (s : Side) : (key v s).le bottom = false := rfl

@[simp] theorem top_le_bottom : top.le bottom = false := rfl

@[simp] theorem top_le_key (v : Value) (s : Side) : top.le (key v s) = false := rfl

theorem le_eq_isLE (a b : Bound) : a.le b = (a.cmp b).isLE := by
  unfold le
  cases a.cmp b <;> rfl

theorem lt_eq_not_le (a b : Bound) : a.lt b = !b.le a := by
  unfold lt le
  rw [← cmp_swap a b]
  cases a.cmp b <;> rfl

theorem le_total (a b : Bound) : a.le b ∨ b.le a := by
  unfold le
  rw [← cmp_swap a b]
  cases a.cmp b <;> simp

theorem le_of_lt {a b : Bound} (h : a.lt b) : a.le b := by
  unfold lt at h
  unfold le
  cases hc : a.cmp b <;> simp [hc] at h ⊢

theorem lt_of_not_le {a b : Bound} (h : ¬ a.le b) : b.lt a := by
  rw [lt_eq_not_le]
  simpa using h

theorem not_le_of_lt {a b : Bound} (h : a.lt b) : ¬ b.le a := by
  rw [lt_eq_not_le] at h
  simpa using h

variable {S : Set Value}

theorem within_exactly {v : Value} (hv : v ∈ S) : (exactly v).Within S := hv

theorem Within.mono {T : Set Value} {b : Bound} (hb : b.Within S) (hST : S ⊆ T) : b.Within T := by
  cases b with
  | key v side => exact hST hb
  | bottom | top => exact trivial

theorem le_trans (hS : TransitiveOn S) {a b c : Bound} (ha : a.Within S) (hb : b.Within S)
    (hc : c.Within S) (h : a.le b) (h' : b.le c) : a.le c := by
  cases a with
  | bottom => exact bottom_le c
  | top =>
    cases b with
    | bottom => simp at h
    | key _ _ => simp at h
    | top => exact h'
  | key x s =>
    cases b with
    | bottom => simp at h
    | top => cases c <;> simp at h' ⊢
    | key y t =>
      cases c with
      | bottom => simp at h'
      | top => simp
      | key z u =>
        rw [le_eq_isLE] at h h' ⊢
        simp only [cmp, Ordering.isLE_then_iff_and] at h h' ⊢
        refine ⟨hS x ha y hb z hc h.1 h'.1, ?_⟩
        -- A strict step on the keys decides; otherwise the sides are compared.
        rcases h.2 with hlt | hst
        · exact Or.inl (hS.lt_of_lt_of_isLE ha hb hc hlt h'.1)
        · rcases h'.2 with hlt | htu
          · exact Or.inl (hS.lt_of_isLE_of_lt ha hb hc h.1 hlt)
          · exact Or.inr (Std.TransCmp.isLE_trans hst htu)

theorem lt_of_lt_of_le (hS : TransitiveOn S) {a b c : Bound} (ha : a.Within S) (hb : b.Within S)
    (hc : c.Within S) (h : a.lt b) (h' : b.le c) : a.lt c :=
  lt_of_not_le fun hca => not_le_of_lt h (le_trans hS hb hc ha h' hca)

/-! ### Keys and the gaps around a bound -/

/-- The keys up to the predecessor of a bound are those below the bound. -/
theorem exactly_le_predecessor (v : Value) (b : Bound) :
    (exactly v).le b.predecessor = (exactly v).lt b := by
  cases b with
  | bottom => rfl
  | top => rfl
  | key w s =>
    cases s <;> simp only [predecessor, exactly, before, le, lt, cmp] <;>
      cases v.keyCmp w <;> rfl

/-- The keys from the successor of a bound on are those above the bound. -/
theorem successor_le_exactly (v : Value) (b : Bound) :
    b.successor.le (exactly v) = b.lt (exactly v) := by
  cases b with
  | bottom => rfl
  | top => rfl
  | key w s =>
    cases s <;> simp only [successor, exactly, after, le, lt, cmp] <;>
      cases w.keyCmp v <;> rfl

/-- A bound above another one is not below the successor of that. -/
theorem successor_le_of_lt {a b : Bound} (h : a.lt b) : a.successor.le b := by
  cases a with
  | bottom => exact le_of_lt h
  | top => exact le_of_lt h
  | key w s =>
    -- Only a bound at a key itself moves, to just above that key.
    cases s with
    | below => exact le_of_lt h
    | above => exact le_of_lt h
    | same =>
      cases b with
      | bottom => simp [lt, cmp] at h
      | top => rfl
      | key u t =>
        simp only [successor, after, lt, le, cmp] at h ⊢
        cases hc : w.keyCmp u with
        | lt => rfl
        | gt => simp [hc] at h
        | eq =>
          cases t with
          | above => rfl
          | below | same => rw [hc] at h; exact absurd h (by decide)

/-- A bound that touches the bottom lies at or below every key, as null is the lowest one. -/
theorem le_exactly_of_adjacent_bottom {b : Bound} (h : bottom.adjacent b) (v : Value) :
    b.le (exactly v) := by
  match b, h with
  | .key w s, h =>
    simp only [adjacent, Bool.and_eq_true] at h
    cases w <;> simp [Value.isNull] at h
    cases s with
    | above => exact absurd h (by decide)
    | below | same =>
      unfold exactly
      rw [le_eq_isLE, cmp, Ordering.isLE_then_iff_and]
      exact ⟨Value.isLE_null_keyCmp v, Or.inr rfl⟩

/-- A key above a bound lies at or above every bound that touches it. -/
theorem le_exactly_of_adjacent (hS : TransitiveOn S) {a b : Bound} {v : Value} (ha : a.Within S)
    (hb : b.Within S) (hv : v ∈ S) (hab : a.adjacent b) (h : a.lt (exactly v)) :
    b.le (exactly v) := by
  -- Nothing lies between adjacent bounds, so what is past the first has reached the second.
  match a, b, hab with
  | .bottom, b, hab => exact le_exactly_of_adjacent_bottom hab v
  | .key w .below, .key u .same, hab =>
    have hwu : w.keyCmp u = .eq := by simpa [adjacent, Value.keyEq] using hab
    have hwv : (w.keyCmp v).isLE := by
      simp only [lt, exactly, cmp] at h
      cases hc : w.keyCmp v <;> simp [hc] at h ⊢
    unfold exactly
    rw [le_eq_isLE, cmp, Ordering.isLE_then_iff_and]
    refine ⟨hS u hb w ha v hv ?_ hwv, Or.inr rfl⟩
    rw [← Value.keyCmp_swap, hwu]
    rfl
  | .key w .same, .key u .above, hab =>
    have hwu : w.keyCmp u = .eq := by simpa [adjacent, Value.keyEq] using hab
    have hwv : w.keyCmp v = .lt := by
      simp only [lt, exactly, cmp] at h
      cases hc : w.keyCmp v <;> simp [hc] at h ⊢
    have huw : (u.keyCmp w).isLE := by
      rw [← Value.keyCmp_swap, hwu]
      rfl
    unfold exactly
    rw [le_eq_isLE, cmp, hS.lt_of_isLE_of_lt hb ha hv huw hwv]
    rfl

theorem max_le_iff (hS : TransitiveOn S) {a b c : Bound} (ha : a.Within S) (hb : b.Within S)
    (hc : c.Within S) : (a.max b).le c ↔ a.le c ∧ b.le c := by
  unfold max
  by_cases hba : b.lt a
  · rw [if_pos hba]
    exact ⟨fun h => ⟨h, le_trans hS hb ha hc (le_of_lt hba) h⟩, And.left⟩
  · have hab : a.le b := by simpa [lt_eq_not_le] using hba
    rw [if_neg hba]
    exact ⟨fun h => ⟨le_trans hS ha hb hc hab h, h⟩, And.right⟩

theorem le_min_iff (hS : TransitiveOn S) {a b c : Bound} (ha : a.Within S) (hb : b.Within S)
    (hc : c.Within S) : c.le (a.min b) ↔ c.le a ∧ c.le b := by
  unfold min
  by_cases hba : b.lt a
  · rw [if_pos hba]
    exact ⟨fun h => ⟨le_trans hS hc hb ha h (le_of_lt hba), h⟩, And.right⟩
  · have hab : a.le b := by simpa [lt_eq_not_le] using hba
    rw [if_neg hba]
    exact ⟨fun h => ⟨h, le_trans hS hc ha hb h hab⟩, And.left⟩

theorem Within.max {a b : Bound} (ha : a.Within S) (hb : b.Within S) : (a.max b).Within S := by
  unfold Bound.max
  split <;> assumption

theorem Within.min {a b : Bound} (ha : a.Within S) (hb : b.Within S) : (a.min b).Within S := by
  unfold Bound.min
  split <;> assumption

theorem Within.predecessor {b : Bound} (hb : b.Within S) : b.predecessor.Within S := by
  rcases b with _ | ⟨v, _ | _ | _⟩ | _ <;> exact hb

theorem Within.successor {b : Bound} (hb : b.Within S) : b.successor.Within S := by
  rcases b with _ | ⟨v, _ | _ | _⟩ | _ <;> exact hb

end Bound

namespace Interval

variable {S : Set Value}

/-! ### Single intervals -/

/-- The values of both ends lie in a set. -/
def Within (S : Set Value) (i : Interval) : Prop := i.low.Within S ∧ i.high.Within S

theorem Within.mono {T : Set Value} {i : Interval} (hi : i.Within S) (hST : S ⊆ T) : i.Within T :=
  ⟨hi.1.mono hST, hi.2.mono hST⟩

theorem contains_iff (i : Interval) (v : Value) :
    i.contains v ↔ i.low.le (.exactly v) ∧ (Bound.exactly v).le i.high := by
  simp [contains]

/-- A key outside an interval lies below it or above it. -/
theorem not_contains_iff (i : Interval) (v : Value) :
    ¬ i.contains v ↔ (Bound.exactly v).lt i.low ∨ i.high.lt (.exactly v) := by
  rw [contains_iff, Bound.lt_eq_not_le, Bound.lt_eq_not_le]
  cases i.low.le (.exactly v) <;> cases (Bound.exactly v).le i.high <;> simp

/-- An interval that is dropped when a set is built holds no key. -/
theorem not_contains_of_isDegenerate (hS : KeySpace S) {i : Interval}
    {v : Value} (hi : i.Within S) (hv : v ∈ S) (h : i.isDegenerate) : ¬ i.contains v := by
  rw [contains_iff]
  rintro ⟨hlow, hhigh⟩
  have hve : (Bound.exactly v).Within S := hv
  have hle : i.low.le i.high := Bound.le_trans hS.trans hi.1 hve hi.2 hlow hhigh
  have hle' := hle
  unfold Bound.le at hle'
  unfold isDegenerate at h
  cases hc : i.low.cmp i.high with
  | gt => simp [hc] at hle'
  | eq =>
    -- Both ends are the same bound, and it is not exactly on a key.
    rw [hc] at h
    have hhl : i.high.le i.low := by
      unfold Bound.le
      rw [← Bound.cmp_swap, hc]
      rfl
    have hvl : (Bound.exactly v).le i.low := Bound.le_trans hS.trans hve hi.2 hi.1 hhigh hhl
    rcases hl : i.low with _ | ⟨w, _ | _ | _⟩ | _ <;> rw [hl] at h hlow hvl
    · simp [Bound.exactly] at hvl
    · simp only [Bound.le, Bound.exactly, Bound.cmp] at hlow hvl
      rw [← Value.keyCmp_swap] at hvl
      cases hw : w.keyCmp v <;> simp [hw] at hlow hvl
      exact absurd hvl (by decide)
    · simp [Bound.key?] at h
    · simp only [Bound.le, Bound.exactly, Bound.cmp] at hlow hvl
      rw [← Value.keyCmp_swap] at hvl
      cases hw : w.keyCmp v <;> simp [hw] at hlow hvl
      exact absurd hlow (by decide)
    · simp [Bound.exactly] at hlow
  | lt =>
    -- The interval ends below null.
    simp only [hc, Bool.and_eq_true] at h
    have hn : (Bound.exactly v).le (.before .null) :=
      Bound.le_trans hS.trans hve hi.2 (Bound.within_exactly hS.null) hhigh h.2
    have hv0 := Value.isLE_null_keyCmp v
    rw [← Value.keyCmp_swap] at hv0
    simp only [Bound.le, Bound.exactly, Bound.before, Bound.cmp] at hn
    cases hw : v.keyCmp .null <;> simp [hw] at hn hv0
    exact absurd hn (by decide)

theorem low_le_high_of_not_isDegenerate {i : Interval} (h : ¬ i.isDegenerate) :
    i.low.le i.high := by
  unfold isDegenerate at h
  unfold Bound.le
  cases hc : i.low.cmp i.high <;> simp [hc] at h ⊢

theorem contains_intersect (hS : KeySpace S) {i j : Interval} {v : Value} (hi : i.Within S)
    (hj : j.Within S) (hv : v ∈ S) : (i.intersect j).contains v ↔ i.contains v ∧ j.contains v := by
  have hve : (Bound.exactly v).Within S := hv
  simp only [contains_iff, intersect]
  rw [Bound.max_le_iff hS.trans hi.1 hj.1 hve, Bound.le_min_iff hS.trans hi.2 hj.2 hve]
  exact and_and_and_comm

end Interval

namespace IntervalSet

variable {S : Set Value}

/-! ### Merging -/

/-- The values of all bounds lie in a set. -/
def Within (S : Set Value) (s : IntervalSet) : Prop := ∀ i ∈ s.intervals, i.Within S

theorem contains_iff (s : IntervalSet) (v : Value) :
    s.contains v ↔ ∃ i ∈ s.intervals, i.contains v := by
  simp [contains]

@[simp] theorem low_stretch (last next : Interval) : (stretch last next).low = last.low := by
  unfold stretch
  split <;> rfl

theorem high_le_high_stretch (last next : Interval) :
    last.high.le (stretch last next).high := by
  unfold stretch
  split
  · exact Bound.le_of_lt ‹_›
  · rcases Bound.le_total last.high last.high with h | h <;> exact h

theorem within_stretch {last next : Interval} (hl : last.Within S) (hn : next.Within S) :
    (stretch last next).Within S := by
  unfold stretch
  split
  · exact ⟨hl.1, hn.2⟩
  · exact hl

/-- A stretched interval holds the keys of both intervals, if nothing lies between them. -/
theorem contains_stretch (hS : KeySpace S) {last next : Interval} {v : Value}
    (hl : last.Within S) (hn : next.Within S) (hv : v ∈ S) (hle : last.low.le next.low)
    (hj : joins last next) :
    (stretch last next).contains v ↔ last.contains v ∨ next.contains v := by
  have hve : (Bound.exactly v).Within S := hv
  simp only [Interval.contains_iff, low_stretch]
  constructor
  · rintro ⟨hlow, hhigh⟩
    by_cases hv' : (Bound.exactly v).le last.high
    · exact Or.inl ⟨hlow, hv'⟩
    · -- The key lies above the first interval, so it can only be in the second one.
      have hlt : last.high.lt (.exactly v) := Bound.lt_of_not_le hv'
      refine Or.inr ⟨?_, ?_⟩
      · simp only [joins, Bool.or_eq_true] at hj
        rcases hj with hj | hj
        · exact Bound.le_trans hS.trans hn.1 hl.2 hve hj (Bound.le_of_lt hlt)
        · exact Bound.le_exactly_of_adjacent hS.trans hl.2 hn.1 hv hj hlt
      · unfold stretch at hhigh
        split at hhigh
        · exact hhigh
        · exact absurd hhigh hv'
  · rintro (⟨hlow, hhigh⟩ | ⟨hlow, hhigh⟩)
    · exact ⟨hlow, Bound.le_trans hS.trans hve hl.2 (within_stretch hl hn).2 hhigh
        (high_le_high_stretch last next)⟩
    · refine ⟨Bound.le_trans hS.trans hl.1 hn.1 hve hle hlow, ?_⟩
      unfold stretch
      split
      · exact hhigh
      · rename_i hnot
        have hnl : next.high.le last.high := by simpa [Bound.lt_eq_not_le] using hnot
        exact Bound.le_trans hS.trans hve hn.2 hl.2 hhigh hnl

/-- Every merged interval starts where one of the given ones starts. -/
theorem exists_low_of_mem_absorb {j : Interval} : ∀ (rest : List Interval) (last : Interval),
    j ∈ absorb last rest → ∃ i ∈ last :: rest, j.low = i.low := by
  intro rest
  induction rest with
  | nil =>
    intro last hj
    exact ⟨j, hj, rfl⟩
  | cons next rest ih =>
    intro last hj
    rw [absorb] at hj
    split at hj
    · obtain ⟨i, hi, hlow⟩ := ih _ hj
      -- The stretched interval starts where the last one did.
      rcases List.mem_cons.mp hi with rfl | hi
      · exact ⟨last, by simp, by rw [hlow, low_stretch]⟩
      · exact ⟨i, by simp [hi], hlow⟩
    · rcases List.mem_cons.mp hj with rfl | hj
      · exact ⟨j, by simp, rfl⟩
      · obtain ⟨i, hi, hlow⟩ := ih _ hj
        exact ⟨i, List.mem_cons_of_mem _ hi, hlow⟩

/-- What holds of the given intervals, and of two of them stretched to one, holds of the merged
ones. -/
theorem forall_mem_absorb {P : Interval → Prop}
    (hstretch : ∀ last next, P last → P next → joins last next → P (stretch last next)) :
    ∀ (rest : List Interval) (last : Interval), (∀ i ∈ last :: rest, P i) →
    ∀ j ∈ absorb last rest, P j := by
  intro rest
  induction rest with
  | nil =>
    intro last h j hj
    exact h j hj
  | cons next rest ih =>
    intro last h j hj
    have hl : P last := h last (by simp)
    have hr : ∀ i ∈ next :: rest, P i := fun i hi => h i (List.mem_cons_of_mem _ hi)
    rw [absorb] at hj
    split at hj
    · -- The two intervals are replaced by one that reaches over both.
      rename_i hjoins
      refine ih _ (fun i hi => ?_) j hj
      rcases List.mem_cons.mp hi with rfl | hi
      · exact hstretch last next hl (hr next (by simp)) hjoins
      · exact hr i (List.mem_cons_of_mem _ hi)
    · rcases List.mem_cons.mp hj with rfl | hj
      · exact hl
      · exact ih next hr j hj

theorem within_absorb (rest : List Interval) (last : Interval)
    (h : ∀ i ∈ last :: rest, i.Within S) : ∀ j ∈ absorb last rest, j.Within S :=
  forall_mem_absorb (fun _ _ hl hn _ => within_stretch hl hn) rest last h

/-- What a stretched interval meets just if one of the two does, the merged intervals meet just if
one of the given ones does. -/
theorem exists_mem_absorb_iff {P Q : Interval → Prop}
    (hQ : ∀ last next, Q last → Q next → joins last next → Q (stretch last next))
    (hP : ∀ last next, Q last → Q next → last.low.le next.low → joins last next →
      (P (stretch last next) ↔ P last ∨ P next)) :
    ∀ (rest : List Interval) (last : Interval), (∀ i ∈ last :: rest, Q i) →
    (last :: rest).Pairwise (fun a b => a.low.le b.low) →
    ((∃ j ∈ absorb last rest, P j) ↔ ∃ i ∈ last :: rest, P i) := by
  intro rest
  induction rest with
  | nil => intro last _ _; rfl
  | cons next rest ih =>
    intro last h hp
    have hl : Q last := h last (by simp)
    have hr : ∀ i ∈ next :: rest, Q i := fun i hi => h i (List.mem_cons_of_mem _ hi)
    obtain ⟨hlow, hp'⟩ := List.pairwise_cons.mp hp
    rw [absorb]
    split
    · -- The stretched interval stands for both, and is still in its place by its lower end.
      rename_i hj
      have hr' : ∀ i ∈ stretch last next :: rest, Q i := by
        intro i hi
        rcases List.mem_cons.mp hi with rfl | hi
        · exact hQ last next hl (hr next (by simp)) hj
        · exact hr i (List.mem_cons_of_mem _ hi)
      have hp'' : (stretch last next :: rest).Pairwise (fun a b => a.low.le b.low) := by
        refine List.pairwise_cons.mpr ⟨fun i hi => ?_, (List.pairwise_cons.mp hp').2⟩
        rw [low_stretch]
        exact hlow i (by simp [hi])
      rw [ih _ hr' hp'']
      simp only [List.mem_cons, exists_eq_or_imp,
        hP last next hl (hr next (by simp)) (hlow next (by simp)) hj, or_assoc]
    · have hrec := ih next hr hp'
      simp only [List.mem_cons, exists_eq_or_imp] at hrec ⊢
      rw [hrec]

theorem contains_absorb (hS : KeySpace S) {v : Value} (hv : v ∈ S) (rest : List Interval)
    (last : Interval) (h : ∀ i ∈ last :: rest, i.Within S)
    (hp : (last :: rest).Pairwise (fun a b => a.low.le b.low)) :
    (∃ j ∈ absorb last rest, j.contains v) ↔ ∃ i ∈ last :: rest, i.contains v :=
  exists_mem_absorb_iff (fun _ _ hl hn _ => within_stretch hl hn)
    (fun _ _ hl hn hle hj => contains_stretch hS hl hn hv hle hj) rest last h hp

/-- Intervals that end after they start and before the next one starts. -/
structure Separated (s : IntervalSet) : Prop where
  low_le_high : ∀ i ∈ s.intervals, i.low.le i.high
  apart : s.intervals.Pairwise fun i j => i.high.lt j.low

theorem separated_absorb (hS : KeySpace S) : ∀ (rest : List Interval) (last : Interval),
    (∀ i ∈ last :: rest, i.Within S) → (∀ i ∈ last :: rest, i.low.le i.high) →
    (last :: rest).Pairwise (fun a b => a.low.le b.low) → Separated ⟨absorb last rest⟩ := by
  intro rest
  induction rest with
  | nil =>
    intro last _ hh _
    exact ⟨hh, List.pairwise_singleton _ _⟩
  | cons next rest ih =>
    intro last hw hh hp
    have hl : last.Within S := hw last (by simp)
    have hn : next.Within S := hw next (by simp)
    have hw' : ∀ i ∈ next :: rest, i.Within S := fun i hi => hw i (List.mem_cons_of_mem _ hi)
    have hh' : ∀ i ∈ next :: rest, i.low.le i.high := fun i hi => hh i (List.mem_cons_of_mem _ hi)
    obtain ⟨hlow, hp'⟩ := List.pairwise_cons.mp hp
    rw [absorb]
    split
    · -- The merged interval takes the place of `last` and begins where it did.
      have hs : (stretch last next).Within S := within_stretch hl hn
      refine ih _ ?_ ?_ ?_
      · intro i hi
        rcases List.mem_cons.mp hi with rfl | hi
        · exact hs
        · exact hw' i (by simp [hi])
      · intro i hi
        rcases List.mem_cons.mp hi with rfl | hi
        · rw [low_stretch]
          exact Bound.le_trans hS.trans hl.1 hl.2 hs.2 (hh last (by simp))
            (high_le_high_stretch _ _)
        · exact hh' i (by simp [hi])
      · refine List.pairwise_cons.mpr ⟨fun i hi => ?_, (List.pairwise_cons.mp hp').2⟩
        rw [low_stretch]
        exact hlow i (by simp [hi])
    · rename_i hj
      obtain ⟨hhigh, hapart⟩ := ih next hw' hh' hp'
      refine ⟨?_, List.pairwise_cons.mpr ⟨fun j hjm => ?_, hapart⟩⟩
      · intro i hi
        rcases List.mem_cons.mp hi with rfl | hi
        · exact hh _ (by simp)
        · exact hhigh i hi
      · -- The next merged intervals start no earlier than `next`, which does not touch `last`.
        have hlt : last.high.lt next.low := by
          refine Bound.lt_of_not_le fun hle => hj ?_
          simp [joins, hle]
        obtain ⟨i, hi, hilow⟩ := exists_low_of_mem_absorb rest next hjm
        rw [hilow]
        rcases List.mem_cons.mp hi with rfl | hi
        · exact hlt
        · exact Bound.lt_of_lt_of_le hS.trans hl.2 hn.1 (hw' i (by simp [hi])).1 hlt
            ((List.pairwise_cons.mp hp').1 i hi)

/-! ### Sets built from intervals -/

/-- The order of bounds is a total preorder on the intervals inside a set. -/
theorem ordersOn_low (hS : KeySpace S) :
    OrdersOn (fun a b : Interval => a.low.le b.low) {i | i.Within S} where
  total := fun a _ b _ => Bound.le_total a.low b.low
  trans := fun _ ha _ hb _ hc => Bound.le_trans hS.trans ha.1 hb.1 hc.1

/-- The intervals that a set is merged from: those that can hold a key, by their low ends. -/
def sortedParts (intervals : List Interval) : List Interval :=
  (intervals.filter fun i => !i.isDegenerate).mergeSort fun a b => a.low.le b.low

theorem mem_sortedParts {intervals : List Interval} {i : Interval} :
    i ∈ sortedParts intervals ↔ i ∈ intervals ∧ ¬ i.isDegenerate := by
  simp [sortedParts]

theorem pairwise_sortedParts (hS : KeySpace S) {intervals : List Interval}
    (h : ∀ i ∈ intervals, i.Within S) :
    (sortedParts intervals).Pairwise fun a b => a.low.le b.low :=
  (ordersOn_low hS).pairwise_mergeSort fun i hi => h i (List.mem_filter.mp hi).1

/-- Intervals that are in order and can hold a key are merged as they are. -/
theorem ofIntervals_of_pairwise {intervals : List Interval}
    (h : ∀ i ∈ intervals, i.isDegenerate = false)
    (hsorted : intervals.Pairwise fun a b => a.low.le b.low) :
    ofIntervals intervals = ⟨merge intervals⟩ := by
  have hall : intervals.filter (fun i => !i.isDegenerate) = intervals :=
    List.filter_eq_self.mpr fun i hi => by simp [h i hi]
  rw [ofIntervals, hall, List.mergeSort_of_pairwise hsorted]

/-- **A set built from intervals holds exactly the keys that lie in one of them.** -/
theorem contains_ofIntervals (hS : KeySpace S)
    {intervals : List Interval} (h : ∀ i ∈ intervals, i.Within S) {v : Value} (hv : v ∈ S) :
    (ofIntervals intervals).contains v ↔ ∃ i ∈ intervals, i.contains v := by
  have hparts : (∃ i ∈ sortedParts intervals, i.contains v) ↔ ∃ i ∈ intervals, i.contains v := by
    constructor
    · rintro ⟨i, hi, hc⟩
      exact ⟨i, (mem_sortedParts.mp hi).1, hc⟩
    · -- A part that is left out is degenerate, and contains nothing.
      rintro ⟨i, hi, hc⟩
      refine ⟨i, mem_sortedParts.mpr ⟨hi, fun hd => ?_⟩, hc⟩
      exact Interval.not_contains_of_isDegenerate hS (h i hi) hv hd hc
  rw [← hparts, contains_iff]
  have hw : ∀ i ∈ sortedParts intervals, i.Within S := fun i hi => h i (mem_sortedParts.mp hi).1
  have hp := pairwise_sortedParts hS h
  change (∃ i ∈ merge (sortedParts intervals), i.contains v) ↔ _
  cases hl : sortedParts intervals with
  | nil => rfl
  | cons first rest =>
    rw [hl] at hw hp
    exact contains_absorb hS hv rest first hw hp

theorem within_ofIntervals {intervals : List Interval} (h : ∀ i ∈ intervals, i.Within S) :
    (ofIntervals intervals).Within S := by
  have hw : ∀ i ∈ sortedParts intervals, i.Within S := fun i hi => h i (mem_sortedParts.mp hi).1
  change ∀ i ∈ merge (sortedParts intervals), i.Within S
  cases hl : sortedParts intervals with
  | nil => simp [merge]
  | cons first rest =>
    rw [hl] at hw
    exact within_absorb rest first hw

theorem separated_ofIntervals (hS : KeySpace S) {intervals : List Interval}
    (h : ∀ i ∈ intervals, i.Within S) : (ofIntervals intervals).Separated := by
  have hp := pairwise_sortedParts hS h
  have hmem : ∀ i ∈ sortedParts intervals, i ∈ intervals ∧ ¬ i.isDegenerate :=
    fun i hi => mem_sortedParts.mp hi
  change Separated ⟨merge (sortedParts intervals)⟩
  cases hl : sortedParts intervals with
  | nil => exact ⟨by simp [merge], by simp [merge]⟩
  | cons first rest =>
    rw [hl] at hp hmem
    exact separated_absorb hS rest first (fun i hi => h i (hmem i hi).1)
      (fun i hi => Interval.low_le_high_of_not_isDegenerate (hmem i hi).2) hp

/-! ### The set operations -/

@[simp] theorem contains_empty (v : Value) : empty.contains v = false := rfl

@[simp] theorem contains_full (v : Value) : full.contains v = true := by
  simp [full, contains, Interval.full, Interval.contains]

theorem within_empty : empty.Within S := by simp [Within, empty]

theorem within_full : full.Within S := by
  simp [Within, full, Interval.Within, Interval.full, Bound.Within]

theorem separated_empty : empty.Separated := ⟨by simp [empty], by simp [empty]⟩

theorem separated_full : full.Separated := ⟨by simp [full, Interval.full], by simp [full]⟩

theorem within_point {v : Value} (hv : v ∈ S) : (Interval.point v).Within S := ⟨hv, hv⟩

/-- A single key holds the values equal to it under the key order. -/
theorem contains_point (w v : Value) : (Interval.point w).contains v ↔ w.keyCmp v = .eq := by
  simp only [Interval.contains_iff, Interval.point, Bound.exactly, Bound.le, Bound.cmp]
  rw [← Value.keyCmp_swap w v]
  cases w.keyCmp v <;> simp

theorem within_map_point {values : List Value} (h : ∀ w ∈ values, w ∈ S) :
    ∀ i ∈ values.map Interval.point, i.Within S := by
  intro i hi
  obtain ⟨w, hw, rfl⟩ := List.mem_map.mp hi
  exact within_point (h w hw)

theorem contains_points (hS : KeySpace S) {values : List Value}
    (h : ∀ w ∈ values, w ∈ S) {v : Value} (hv : v ∈ S) :
    (points values).contains v ↔ ∃ w ∈ values, w.keyCmp v = .eq := by
  rw [points, contains_ofIntervals hS (within_map_point h) hv]
  simp [contains_point]

theorem within_append {s t : IntervalSet} (hs : s.Within S) (ht : t.Within S) :
    ∀ i ∈ s.intervals ++ t.intervals, i.Within S := by
  intro i hi
  rcases List.mem_append.mp hi with hi | hi
  · exact hs i hi
  · exact ht i hi

theorem contains_union (hS : KeySpace S) {s t : IntervalSet}
    (hs : s.Within S) (ht : t.Within S) {v : Value} (hv : v ∈ S) :
    (s.union t).contains v ↔ s.contains v ∨ t.contains v := by
  rw [union, contains_ofIntervals hS (within_append hs ht) hv, contains_iff, contains_iff]
  simp only [List.mem_append, or_and_right, exists_or]

/-- The intervals that two sets share, one for each pair. -/
theorem within_pairs {s t : IntervalSet} (hs : s.Within S) (ht : t.Within S) :
    ∀ i ∈ s.intervals.flatMap (fun i => t.intervals.map fun j => i.intersect j), i.Within S := by
  intro i hi
  obtain ⟨a, ha, hia⟩ := List.mem_flatMap.mp hi
  obtain ⟨b, hb, rfl⟩ := List.mem_map.mp hia
  exact ⟨(hs a ha).1.max (ht b hb).1, (hs a ha).2.min (ht b hb).2⟩

theorem contains_intersect (hS : KeySpace S) {s t : IntervalSet}
    (hs : s.Within S) (ht : t.Within S) {v : Value} (hv : v ∈ S) :
    (s.intersect t).contains v ↔ s.contains v ∧ t.contains v := by
  rw [intersect, contains_ofIntervals hS (within_pairs hs ht) hv, contains_iff, contains_iff]
  constructor
  · rintro ⟨i, hi, hc⟩
    obtain ⟨a, ha, hia⟩ := List.mem_flatMap.mp hi
    obtain ⟨b, hb, rfl⟩ := List.mem_map.mp hia
    obtain ⟨hca, hcb⟩ := (Interval.contains_intersect hS (hs a ha) (ht b hb) hv).mp hc
    exact ⟨⟨a, ha, hca⟩, ⟨b, hb, hcb⟩⟩
  · rintro ⟨⟨a, ha, hca⟩, ⟨b, hb, hcb⟩⟩
    refine ⟨a.intersect b, List.mem_flatMap.mpr ⟨a, ha, List.mem_map.mpr ⟨b, hb, rfl⟩⟩, ?_⟩
    exact (Interval.contains_intersect hS (hs a ha) (ht b hb) hv).mpr ⟨hca, hcb⟩

/-- The gaps above a bound hold the keys above it that lie in no interval. -/
theorem contains_gaps (hS : KeySpace S) {v : Value} (hv : v ∈ S) :
    ∀ (intervals : List Interval) (start : Bound), start.Within S →
    (∀ i ∈ intervals, i.Within S) → Separated ⟨intervals⟩ →
    (∀ i ∈ intervals, start.le i.low) →
    ((∃ g ∈ gaps start intervals, g.contains v) ↔
      start.le (.exactly v) ∧ ∀ i ∈ intervals, ¬ i.contains v) := by
  intro intervals
  induction intervals with
  | nil =>
    intro start _ _ _ _
    simp [gaps, Interval.contains]
  | cons i rest ih =>
    intro start hst hw hsep hlow
    have hve : (Bound.exactly v).Within S := hv
    have hi : i.Within S := hw i (by simp)
    have hih : i.low.le i.high := hsep.low_le_high i (by simp)
    obtain ⟨hapart, hapart'⟩ := List.pairwise_cons.mp hsep.apart
    -- A gap before the interval and the gaps after it; at an infinite end there is none.
    have hbefore :
        (∃ g ∈ (if i.low == .bottom then [] else [(⟨start, i.low.predecessor⟩ : Interval)]),
          g.contains v) ↔ start.le (.exactly v) ∧ (Bound.exactly v).lt i.low := by
      by_cases hb : i.low = .bottom
      · simp [hb, Bound.lt_eq_not_le]
      · simp [hb, Interval.contains_iff, Bound.exactly_le_predecessor]
    have hafter : (∃ g ∈ (if i.high == .top then [] else gaps i.high.successor rest),
        g.contains v) ↔ i.high.lt (.exactly v) ∧ ∀ j ∈ rest, ¬ j.contains v := by
      by_cases ht : i.high = .top
      · simp [ht, Bound.lt_eq_not_le]
      · rw [if_neg (by simpa using ht), ih i.high.successor hi.2.successor
          (fun j hj => hw j (by simp [hj]))
          ⟨fun j hj => hsep.low_le_high j (by simp [hj]), hapart'⟩
          (fun j hj => Bound.successor_le_of_lt (hapart j hj)), Bound.successor_le_exactly]
    simp only [gaps, List.mem_append, or_and_right, exists_or]
    rw [hbefore, hafter]
    constructor
    · rintro (⟨hsv, hvl⟩ | ⟨hhv, hrest⟩)
      · refine ⟨hsv, fun j hj => ?_⟩
        rw [Interval.not_contains_iff]
        rcases List.mem_cons.mp hj with rfl | hjr
        · exact Or.inl hvl
        · have hvh : (Bound.exactly v).lt i.high :=
            Bound.lt_of_lt_of_le hS.trans hve hi.1 hi.2 hvl hih
          exact Or.inl (Bound.lt_of_lt_of_le hS.trans hve hi.2 (hw j hj).1 hvh
            (Bound.le_of_lt (hapart j hjr)))
      · constructor
        · have hsh : start.le i.high := Bound.le_trans hS.trans hst hi.1 hi.2 (hlow i (by simp)) hih
          exact Bound.le_trans hS.trans hst hi.2 hve hsh (Bound.le_of_lt hhv)
        · intro j hj
          rcases List.mem_cons.mp hj with rfl | hjr
          · exact (Interval.not_contains_iff _ v).mpr (Or.inr hhv)
          · exact hrest j hjr
    · rintro ⟨hsv, hnone⟩
      rcases (Interval.not_contains_iff i v).mp (hnone i (by simp)) with hvl | hhv
      · exact Or.inl ⟨hsv, hvl⟩
      · exact Or.inr ⟨hhv, fun j hj => hnone j (by simp [hj])⟩

theorem within_gaps : ∀ (intervals : List Interval) (start : Bound), start.Within S →
    (∀ i ∈ intervals, i.Within S) → ∀ g ∈ gaps start intervals, g.Within S := by
  intro intervals
  induction intervals with
  | nil =>
    intro start hst _ g hg
    rw [List.mem_singleton.mp hg]
    exact ⟨hst, trivial⟩
  | cons i rest ih =>
    intro start hst hw g hg
    have hi : i.Within S := hw i (by simp)
    rw [gaps] at hg
    rcases List.mem_append.mp hg with hg | hg
    · -- The gap before the interval; there is none below an interval without a lower end.
      split at hg
      · simp at hg
      · rw [List.mem_singleton.mp hg]
        exact ⟨hst, hi.1.predecessor⟩
    · -- The gaps after it; there are none above an interval without an upper end.
      split at hg
      · simp at hg
      · exact ih _ hi.2.successor (fun j hj => hw j (by simp [hj])) g hg

theorem contains_complement (hS : KeySpace S) {s : IntervalSet}
    (hs : s.Within S) (hsep : s.Separated) {v : Value} (hv : v ∈ S) :
    s.complement.contains v ↔ ¬ s.contains v := by
  rw [complement, contains_ofIntervals hS (within_gaps s.intervals .bottom trivial hs) hv,
    contains_gaps hS hv s.intervals .bottom trivial hs hsep (fun i _ => Bound.bottom_le i.low),
    contains_iff]
  simp

/-! ### Sets and one key -/

/-- A set in good shape, with the answer it gives for a key. Each operation on sets is one on
answers. -/
structure Answers (S : Set Value) (v : Value) (s : IntervalSet) (answer : Bool) : Prop where
  within : s.Within S
  separated : s.Separated
  contains_eq : s.contains v = answer

namespace Answers

variable {v : Value}

theorem ofIntervals (hS : KeySpace S) (hv : v ∈ S)
    {intervals : List Interval} (h : ∀ i ∈ intervals, i.Within S) {answer : Bool}
    (hanswer : (∃ i ∈ intervals, i.contains v) ↔ answer) :
    Answers S v (.ofIntervals intervals) answer where
  within := within_ofIntervals h
  separated := separated_ofIntervals hS h
  contains_eq := Bool.eq_iff_iff.mpr ((contains_ofIntervals hS h hv).trans hanswer)

theorem empty : Answers S v .empty false := ⟨within_empty, separated_empty, rfl⟩

theorem full : Answers S v .full true := ⟨within_full, separated_full, contains_full v⟩

variable {s t : IntervalSet} {x y : Bool}

theorem union (hS : KeySpace S) (hv : v ∈ S) (hs : Answers S v s x)
    (ht : Answers S v t y) : Answers S v (s.union t) (x || y) := by
  have hw := within_append hs.within ht.within
  refine ⟨within_ofIntervals hw, separated_ofIntervals hS hw, ?_⟩
  rw [Bool.eq_iff_iff, contains_union hS hs.within ht.within hv, hs.contains_eq,
    ht.contains_eq, Bool.or_eq_true]

theorem intersect (hS : KeySpace S) (hv : v ∈ S)
    (hs : Answers S v s x) (ht : Answers S v t y) : Answers S v (s.intersect t) (x && y) := by
  have hw := within_pairs hs.within ht.within
  refine ⟨within_ofIntervals hw, separated_ofIntervals hS hw, ?_⟩
  rw [Bool.eq_iff_iff, contains_intersect hS hs.within ht.within hv, hs.contains_eq,
    ht.contains_eq, Bool.and_eq_true]

theorem complement (hS : KeySpace S) (hv : v ∈ S)
    (hs : Answers S v s x) : Answers S v s.complement (!x) := by
  have hw := within_gaps s.intervals .bottom trivial hs.within
  refine ⟨within_ofIntervals hw, separated_ofIntervals hS hw, ?_⟩
  rw [Bool.eq_iff_iff, contains_complement hS hs.within hs.separated hv, hs.contains_eq]
  simp

end Answers

end IntervalSet

end QueryPlanner
