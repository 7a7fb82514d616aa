import Mathlib.Data.List.Chain
import QueryPlanner.Proofs.Key.Algebra

/-!
# Key sets have one form

Merging leaves intervals that hold something, with a gap between any two.  Such a list is determined
by what it covers, so the order in which intervals are merged makes no difference, and union is a
union.

The keys that a list holds do not determine it: nothing lies between the texts `"a"` and
`"a\u0000"`, yet what ends right after the first is not merged with what starts right before the
second.  Coverage is therefore measured on finer spots than keys: on bounds, and right past all
bounds at a value.

## Main definitions

* `Spot` — a bound, or what lies right past all bounds at a value.
* `Interval.covers`, `IntervalSet.Covers` — the spots between the ends of an interval.
* `IntervalSet.Normal` — intervals that hold something and neither overlap nor touch.

## Main results

* `IntervalSet.normal_ofIntervals` — merging leaves a normal list.
* `IntervalSet.covers_ofIntervals` — merging covers what the intervals cover.
* `IntervalSet.equiv_of_covers` — **normal lists that cover the same are equal**, bound by bound.
* `IntervalSet.ofIntervals_canonical` — **key sets have one form**.
-/

namespace QueryPlanner

open Value (TransitiveOn KeySpace)

variable {S : Set Value}

/-! ### Bounds at values -/

theorem Side.rank_le_two (s : Side) : s.rank ≤ 2 := by cases s <;> decide

namespace Bound

theorem key_le_key_iff (v w : Value) (s t : Side) :
    (key v s).le (key w t) ↔ v.keyCmp w = .lt ∨ v.keyCmp w = .eq ∧ s.rank ≤ t.rank := by
  rw [le_eq_isLE, cmp]
  cases v.keyCmp w <;> simp [Nat.isLE_compare]

theorem key_lt_key_iff (v w : Value) (s t : Side) :
    (key v s).lt (key w t) ↔ v.keyCmp w = .lt ∨ v.keyCmp w = .eq ∧ s.rank < t.rank := by
  unfold lt
  rw [cmp]
  cases v.keyCmp w <;> simp [Nat.compare_eq_lt]

/-- Bounds at a value touch if one is the next after the other. -/
theorem key_adjacent_key_iff (v w : Value) (s t : Side) :
    (key v s).adjacent (key w t) ↔ v.keyCmp w = .eq ∧ t.rank = s.rank + 1 := by
  cases s <;> cases t <;> simp [adjacent, Value.keyEq, Side.rank]

theorem equiv_of_le {a b : Bound} (h : a.le b) (h' : b.le a) : a.equiv b := by
  unfold le at h h'
  unfold equiv
  rw [← cmp_swap a b] at h'
  cases hc : a.cmp b <;> simp [hc] at h h' ⊢

end Bound

/-! ### Spots -/

/-- A place that an interval covers or leaves out. -/
inductive Spot where
  /-- On a bound. -/
  | on (bound : Bound)
  /-- Above all bounds at a value, and below all bounds at a higher one. -/
  | past (value : Value)

namespace Spot

/-- The last bound that is not above the spot. -/
def bound : Spot → Bound
  | .on b => b
  | .past v => .after v

/-- Whether the spot lies at or below a bound. -/
def isUpTo : Spot → Bound → Bool
  | .on a, b => a.le b
  | .past v, b => (Bound.after v).lt b

/-- The first spot above a bound at a value. -/
def above (v : Value) : Side → Spot
  | .below => .on (.exactly v)
  | .same => .on (.after v)
  | .above => .past v

theorem bound_le_of_isUpTo {p : Spot} {b : Bound} (h : p.isUpTo b) : p.bound.le b := by
  cases p with
  | on a => exact h
  | past v => exact Bound.le_of_lt h

theorem le_bound_of_not_isUpTo {p : Spot} {b : Bound} (h : ¬ p.isUpTo b) : b.le p.bound := by
  cases p with
  | on a => exact Bound.le_of_lt (Bound.lt_of_not_le h)
  | past v => simpa [isUpTo, bound, Bound.lt_eq_not_le] using h

theorem isUpTo_of_le (hS : TransitiveOn S) {p : Spot} {a b : Bound} (hp : p.bound.Within S)
    (ha : a.Within S) (hb : b.Within S) (h : p.isUpTo a) (hab : a.le b) : p.isUpTo b := by
  cases p with
  | on c => exact Bound.le_trans hS hp ha hb h hab
  | past v => exact Bound.lt_of_lt_of_le hS hp ha hb h hab

/-- The first spot above a bound is reached by the bounds above that. -/
theorem isUpTo_above (v : Value) (s : Side) (b : Bound) :
    (above v s).isUpTo b ↔ (Bound.key v s).lt b := by
  cases b with
  | bottom => cases s <;> exact Iff.rfl
  | top => cases s <;> exact Iff.rfl
  | key w t =>
    cases s with
    | above => exact Iff.rfl
    | below | same =>
      simp only [above, isUpTo, Bound.exactly, Bound.after, Bound.key_le_key_iff,
        Bound.key_lt_key_iff, Side.rank, Nat.succ_le_iff]

theorem not_isUpTo_above (v : Value) (s : Side) : ¬ (above v s).isUpTo (.key v s) := by
  rw [isUpTo_above]
  exact fun hlt => Bound.not_le_of_lt hlt (Bound.le_of_lt hlt)

theorem exists_bound_above (v : Value) (s : Side) :
    ∃ t : Side, (above v s).bound = .key v t ∧ t.rank = min (s.rank + 1) 2 := by
  cases s
  · exact ⟨.same, rfl, rfl⟩
  · exact ⟨.above, rfl, rfl⟩
  · exact ⟨.above, rfl, rfl⟩

theorem within_above {v : Value} (hv : v ∈ S) (s : Side) : (above v s).bound.Within S := by
  obtain ⟨t, hbound, -⟩ := exists_bound_above v s
  rw [hbound]
  exact hv

/-- A spot above a bound lies at or above the first one. -/
theorem bound_above_le {v : Value} {s : Side} {p : Spot} (h : ¬ p.isUpTo (.key v s)) :
    (above v s).bound.le p.bound := by
  cases p with
  | on c =>
    have hlt : (Bound.key v s).lt c := Bound.lt_of_not_le h
    exact bound_le_of_isUpTo ((isUpTo_above v s c).mpr hlt)
  | past w =>
    obtain ⟨t, hbound, -⟩ := exists_bound_above v s
    have hle : (Bound.key v s).le (.key w .above) := le_bound_of_not_isUpTo h
    rw [Bound.key_le_key_iff] at hle
    rw [hbound]
    exact (Bound.key_le_key_iff v w t .above).mpr (hle.imp_right fun h => ⟨h.1, t.rank_le_two⟩)

/-- A bound up to the first spot above another one lies below that or touches it. -/
theorem le_or_adjacent_of_le_above {v : Value} {s : Side} {b : Bound}
    (h : b.le (above v s).bound) : b.le (.key v s) ∨ (Bound.key v s).adjacent b := by
  obtain ⟨t, hbound, hrank⟩ := exists_bound_above v s
  rw [hbound] at h
  cases b with
  | bottom => exact Or.inl rfl
  | top => cases h
  | key w u =>
    rw [Bound.key_le_key_iff] at h ⊢
    rw [Bound.key_adjacent_key_iff]
    rcases h with hlt | ⟨heq, hle⟩
    · exact Or.inl (Or.inl hlt)
    · by_cases hu : u.rank ≤ s.rank
      · exact Or.inl (Or.inr ⟨heq, hu⟩)
      · exact Or.inr ⟨Std.OrientedCmp.eq_symm heq, by omega⟩

/-- A bound that touches another one lies up to the first spot above that. -/
theorem le_above_of_adjacent {v : Value} {s : Side} {b : Bound}
    (h : (Bound.key v s).adjacent b) : b.le (above v s).bound := by
  obtain ⟨t, hbound, hrank⟩ := exists_bound_above v s
  rw [hbound]
  cases b with
  | bottom | top => cases s <;> cases h
  | key w u =>
    obtain ⟨heq, hu⟩ := (Bound.key_adjacent_key_iff v w s u).mp h
    have hu2 := u.rank_le_two
    exact (Bound.key_le_key_iff w v u t).mpr (Or.inr ⟨Std.OrientedCmp.eq_symm heq, by omega⟩)

end Spot

namespace Interval

/-! ### Intervals and the spots they cover -/

/-- Whether a spot lies between the ends of an interval. -/
def covers (i : Interval) (p : Spot) : Bool := i.low.le p.bound && p.isUpTo i.high

theorem covers_iff (i : Interval) (p : Spot) :
    i.covers p ↔ i.low.le p.bound ∧ p.isUpTo i.high := by
  simp [covers]

@[simp] theorem point?_point (v : Value) : (point v).point? = some v := by
  simp [point?, point, Bound.equiv, Bound.exactly, Bound.cmp, Bound.key?]

/-- An interval that can hold a key ends above the bottom. -/
theorem high_ne_bottom {i : Interval} (h : ¬ i.isDegenerate) : i.high ≠ .bottom := by
  intro hhigh
  have hle := low_le_high_of_not_isDegenerate h
  rw [hhigh] at hle
  cases hlow : i.low with
  | bottom => exact h (by simp [isDegenerate, hlow, hhigh, Bound.cmp, Bound.key?])
  | key v s => simp [hlow] at hle
  | top => simp [hlow] at hle

/-- Ending later, an interval that can hold a key still can. -/
theorem not_isDegenerate_of_high_lt (hS : KeySpace S) {i : Interval} {b : Bound} (hi : i.Within S)
    (hb : b.Within S) (h : ¬ i.isDegenerate) (hlt : i.high.lt b) :
    ¬ (⟨i.low, b⟩ : Interval).isDegenerate := by
  have hle := low_le_high_of_not_isDegenerate h
  have hlow : i.low.cmp b = .lt := by
    have hlb : i.low.lt b := Bound.lt_of_not_le fun hbl =>
      Bound.not_le_of_lt hlt (Bound.le_trans hS.trans hb hi.1 hi.2 hbl hle)
    simpa [Bound.lt] using hlb
  intro hd
  simp only [isDegenerate, hlow, Bool.and_eq_true, beq_iff_eq] at hd
  -- Starting at the bottom and ending below null, the interval would have held no key before.
  have hnull : i.high.le (.before .null) :=
    Bound.le_trans hS.trans hi.2 hb (Bound.within_exactly hS.null) (Bound.le_of_lt hlt) hd.2
  refine h ?_
  unfold isDegenerate
  cases hc : i.low.cmp i.high with
  | lt => simp [hd.1, hnull]
  | eq => simp [hd.1, Bound.key?]
  | gt => rfl

end Interval

namespace IntervalSet

/-- Stretching keeps intervals with ends in a set that can hold a key. -/
theorem stretch_keeps (hS : KeySpace S) {last next : Interval}
    (hl : last.Within S ∧ ¬ last.isDegenerate) (hn : next.Within S ∧ ¬ next.isDegenerate) :
    (stretch last next).Within S ∧ ¬ (stretch last next).isDegenerate := by
  refine ⟨within_stretch hl.1 hn.1, ?_⟩
  unfold stretch
  split
  · exact Interval.not_isDegenerate_of_high_lt hS hl.1 hn.1.2 hl.2 ‹_›
  · exact hl.2

theorem keeps_sortedParts {intervals : List Interval} (h : ∀ i ∈ intervals, i.Within S) :
    ∀ i ∈ sortedParts intervals, i.Within S ∧ ¬ i.isDegenerate := fun i hi =>
  ⟨h i (mem_sortedParts.mp hi).1, (mem_sortedParts.mp hi).2⟩

/-- A stretched interval reaches as far as one of the two does. -/
theorem isUpTo_high_stretch (hS : KeySpace S) {last next : Interval} {p : Spot} (hl : last.Within S)
    (hn : next.Within S) (hp : p.bound.Within S) :
    p.isUpTo (stretch last next).high ↔ p.isUpTo last.high ∨ p.isUpTo next.high := by
  unfold stretch
  split
  · rename_i hlt
    refine ⟨Or.inr, fun h => h.elim (fun h => ?_) id⟩
    exact Spot.isUpTo_of_le hS.trans hp hl.2 hn.2 h (Bound.le_of_lt hlt)
  · rename_i hnot
    have hle : next.high.le last.high := by simpa [Bound.lt_eq_not_le] using hnot
    refine ⟨Or.inl, fun h => h.elim id fun h => ?_⟩
    exact Spot.isUpTo_of_le hS.trans hp hn.2 hl.2 h hle

/-- No spot lies between two intervals that are merged: one above the first is not below the second.
-/
theorem low_le_bound_of_joins (hS : KeySpace S) {last next : Interval} {p : Spot}
    (hl : last.Within S) (hn : next.Within S) (hp : p.bound.Within S) (hd : ¬ last.isDegenerate)
    (hj : joins last next) (hup : ¬ p.isUpTo last.high) : next.low.le p.bound := by
  simp only [joins, Bool.or_eq_true] at hj
  rcases hj with hj | hj
  · exact Bound.le_trans hS.trans hn.1 hl.2 hp hj (Spot.le_bound_of_not_isUpTo hup)
  · cases hhl : last.high with
    | bottom => exact absurd hhl (Interval.high_ne_bottom hd)
    | top => rw [hhl] at hj; cases hj
    | key v s =>
      rw [hhl] at hj hup
      have hv : (Bound.key v s).Within S := hhl ▸ hl.2
      exact Bound.le_trans hS.trans hn.1 (Spot.within_above hv s) hp
        (Spot.le_above_of_adjacent hj) (Spot.bound_above_le hup)

/-- **A stretched interval covers what the two intervals cover.** -/
theorem covers_stretch (hS : KeySpace S) {last next : Interval} {p : Spot} (hl : last.Within S)
    (hn : next.Within S) (hp : p.bound.Within S) (hd : ¬ last.isDegenerate)
    (hle : last.low.le next.low) (hj : joins last next) :
    (stretch last next).covers p ↔ last.covers p ∨ next.covers p := by
  simp only [Interval.covers_iff, low_stretch, isUpTo_high_stretch hS hl hn hp]
  constructor
  · rintro ⟨hlow, hhigh⟩
    by_cases hup : p.isUpTo last.high
    · exact Or.inl ⟨hlow, hup⟩
    · exact Or.inr ⟨low_le_bound_of_joins hS hl hn hp hd hj hup, hhigh.resolve_left hup⟩
  · rintro (⟨hlow, hhigh⟩ | ⟨hlow, hhigh⟩)
    · exact ⟨hlow, Or.inl hhigh⟩
    · exact ⟨Bound.le_trans hS.trans hl.1 hn.1 hp hle hlow, Or.inr hhigh⟩

/-! ### What merging leaves and covers -/

/-- Intervals that can hold a key, each ending below the next without touching it. -/
structure Normal (s : IntervalSet) : Prop where
  not_isDegenerate : ∀ i ∈ s.intervals, ¬ i.isDegenerate
  apart : s.intervals.IsChain fun i j => i.high.lt j.low ∧ ¬ i.high.adjacent j.low

/-- A spot lies in one of the intervals. -/
def Covers (s : IntervalSet) (p : Spot) : Prop := ∃ i ∈ s.intervals, i.covers p

/-- The intervals merged into the first one do not change where it starts. -/
theorem exists_absorb_eq_cons : ∀ (rest : List Interval) (last : Interval),
    ∃ first others, absorb last rest = first :: others ∧ first.low = last.low := by
  intro rest
  induction rest with
  | nil => exact fun last => ⟨last, [], rfl, rfl⟩
  | cons next rest ih =>
    intro last
    rw [absorb]
    split
    · obtain ⟨first, others, heq, hlow⟩ := ih (stretch last next)
      exact ⟨first, others, heq, hlow.trans (low_stretch last next)⟩
    · exact ⟨last, _, rfl, rfl⟩

/-- An interval that is not merged with the next one lies apart from it. -/
theorem isChain_absorb : ∀ (rest : List Interval) (last : Interval),
    (absorb last rest).IsChain fun i j => i.high.lt j.low ∧ ¬ i.high.adjacent j.low := by
  intro rest
  induction rest with
  | nil => exact fun last => List.IsChain.singleton last
  | cons next rest ih =>
    intro last
    rw [absorb]
    split
    · exact ih (stretch last next)
    · rename_i hj
      obtain ⟨first, others, heq, hlow⟩ := exists_absorb_eq_cons rest next
      have hrest := ih next
      rw [heq] at hrest ⊢
      simp only [joins, Bool.or_eq_true, not_or] at hj
      refine List.IsChain.cons_cons ?_ hrest
      rw [hlow]
      exact ⟨Bound.lt_of_not_le hj.1, hj.2⟩

/-- **Merging leaves a normal list.** -/
theorem normal_ofIntervals (hS : KeySpace S) {intervals : List Interval}
    (h : ∀ i ∈ intervals, i.Within S) : (ofIntervals intervals).Normal := by
  have hparts := keeps_sortedParts h
  change Normal ⟨merge (sortedParts intervals)⟩
  cases hl : sortedParts intervals with
  | nil => exact ⟨by simp [merge], by simp [merge]⟩
  | cons first rest =>
    rw [hl] at hparts
    refine ⟨fun j hj => ?_, isChain_absorb rest first⟩
    exact (forall_mem_absorb (fun _ _ hl hn _ => stretch_keeps hS hl hn) rest first hparts j hj).2

/-- **Merging covers what the intervals cover** that can hold a key. -/
theorem covers_ofIntervals (hS : KeySpace S) {intervals : List Interval}
    (h : ∀ i ∈ intervals, i.Within S) {p : Spot} (hp : p.bound.Within S) :
    (ofIntervals intervals).Covers p ↔ ∃ i ∈ intervals, ¬ i.isDegenerate ∧ i.covers p := by
  have hparts := keeps_sortedParts h
  have hsorted := pairwise_sortedParts hS h
  have hmem : (∃ i ∈ sortedParts intervals, i.covers p) ↔
      ∃ i ∈ intervals, ¬ i.isDegenerate ∧ i.covers p := by
    simp only [mem_sortedParts, and_assoc]
  rw [← hmem]
  change (∃ i ∈ merge (sortedParts intervals), i.covers p) ↔ _
  cases hl : sortedParts intervals with
  | nil => rfl
  | cons first rest =>
    rw [hl] at hparts hsorted
    exact exists_mem_absorb_iff (fun _ _ hl hn _ => stretch_keeps hS hl hn)
      (fun _ _ hl hn hle hj => covers_stretch hS hl.1 hn.1 hp hl.2 hle hj) rest first hparts hsorted

/-! ### Normal lists that cover the same -/

namespace Normal

variable {i : Interval} {rest : List Interval}

theorem tail (h : Normal ⟨i :: rest⟩) : Normal ⟨rest⟩ :=
  ⟨fun j hj => h.not_isDegenerate j (List.mem_cons_of_mem _ hj), h.apart.tail⟩

theorem low_le_high (h : Normal ⟨i :: rest⟩) : i.low.le i.high :=
  Interval.low_le_high_of_not_isDegenerate (h.not_isDegenerate i (by simp))

/-- Every interval lies above those before it. -/
theorem high_lt_low (hS : KeySpace S) :
    ∀ (rest : List Interval) (i : Interval), Normal ⟨i :: rest⟩ →
    (∀ k ∈ i :: rest, k.Within S) → ∀ j ∈ rest, i.high.lt j.low := by
  intro rest
  induction rest with
  | nil => intro i _ _ j hj; cases hj
  | cons k rest ih =>
    intro i h hw j hj
    have hik := (List.isChain_cons_cons.mp h.apart).1.1
    have hi := hw i (by simp)
    have hk := hw k (by simp)
    rcases List.mem_cons.mp hj with rfl | hj'
    · exact hik
    · have hkj := ih k h.tail (fun l hl => hw l (List.mem_cons_of_mem _ hl)) j hj'
      have hkl := Bound.lt_of_lt_of_le hS.trans hi.2 hk.1 hk.2 hik h.tail.low_le_high
      exact Bound.lt_of_lt_of_le hS.trans hi.2 hk.2 (hw j (by simp [hj'])).1 hkl
        (Bound.le_of_lt hkj)

/-- The later intervals cover what lies above the first one. -/
theorem covers_tail_iff (hS : KeySpace S) (h : Normal ⟨i :: rest⟩)
    (hw : ∀ k ∈ i :: rest, k.Within S) {p : Spot} (hp : p.bound.Within S) :
    Covers ⟨rest⟩ p ↔ Covers ⟨i :: rest⟩ p ∧ ¬ p.isUpTo i.high := by
  constructor
  · rintro ⟨j, hj, hc⟩
    refine ⟨⟨j, List.mem_cons_of_mem _ hj, hc⟩, fun hup => ?_⟩
    have hlow := ((Interval.covers_iff j p).mp hc).1
    have hjw := hw j (List.mem_cons_of_mem _ hj)
    refine Bound.not_le_of_lt (high_lt_low hS rest i h hw j hj) ?_
    exact Bound.le_trans hS.trans hjw.1 hp (hw i (by simp)).2 hlow (Spot.bound_le_of_isUpTo hup)
  · rintro ⟨⟨j, hj, hc⟩, hup⟩
    rcases List.mem_cons.mp hj with rfl | hj
    · exact absurd ((Interval.covers_iff _ p).mp hc).2 hup
    · exact ⟨j, hj, hc⟩

/-- Nothing is covered below the first interval. -/
theorem low_le_bound (hS : KeySpace S) (h : Normal ⟨i :: rest⟩) (hw : ∀ k ∈ i :: rest, k.Within S)
    {p : Spot} (hp : p.bound.Within S) (hc : Covers ⟨i :: rest⟩ p) : i.low.le p.bound := by
  obtain ⟨j, hj, hc⟩ := hc
  have hi := hw i (by simp)
  have hlow := ((Interval.covers_iff j p).mp hc).1
  rcases List.mem_cons.mp hj with rfl | hj'
  · exact hlow
  · have hij := Bound.le_of_lt (high_lt_low hS rest i h hw j hj')
    have hjw := hw j hj
    exact Bound.le_trans hS.trans hi.1 hjw.1 hp
      (Bound.le_trans hS.trans hi.1 hi.2 hjw.1 h.low_le_high hij) hlow

/-- A normal list covers the low end of its first interval. -/
theorem covers_low (h : Normal ⟨i :: rest⟩) : Covers ⟨i :: rest⟩ (.on i.low) := by
  refine ⟨i, by simp, (Interval.covers_iff i _).mpr ⟨?_, h.low_le_high⟩⟩
  rcases Bound.le_total i.low i.low with h | h <;> exact h

/-- **Right above the first interval nothing is covered**: the next one does not touch it. -/
theorem not_covers_above (hS : KeySpace S) (h : Normal ⟨i :: rest⟩)
    (hw : ∀ k ∈ i :: rest, k.Within S) {v : Value} {s : Side} (hhigh : i.high = .key v s) :
    ¬ Covers ⟨i :: rest⟩ (.above v s) := by
  intro hc
  have hv : (Bound.key v s).Within S := hhigh ▸ (hw i (by simp)).2
  have hp := Spot.within_above hv s
  have hup : ¬ (Spot.above v s).isUpTo i.high := hhigh ▸ Spot.not_isUpTo_above v s
  have hrest := (covers_tail_iff hS h hw hp).mpr ⟨hc, hup⟩
  cases rest with
  | nil => simp [Covers] at hrest
  | cons k rest =>
    have hk := h.tail.low_le_bound hS (fun l hl => hw l (List.mem_cons_of_mem _ hl)) hp hrest
    obtain ⟨hlt, hadjacent⟩ := (List.isChain_cons_cons.mp h.apart).1
    rw [hhigh] at hlt hadjacent
    rcases Spot.le_or_adjacent_of_le_above hk with hle | hadj
    · exact Bound.not_le_of_lt hlt hle
    · exact hadjacent hadj

variable {j : Interval} {others : List Interval}

/-- A list that covers more does not start later. -/
theorem low_le_low (hS : KeySpace S) (h : Normal ⟨i :: rest⟩) (h' : Normal ⟨j :: others⟩)
    (hw : ∀ k ∈ i :: rest, k.Within S) (hw' : ∀ k ∈ j :: others, k.Within S)
    (hcov : ∀ p : Spot, p.bound.Within S → Covers ⟨i :: rest⟩ p → Covers ⟨j :: others⟩ p) :
    j.low.le i.low := by
  have hi : (Spot.on i.low).bound.Within S := (hw i (by simp)).1
  exact h'.low_le_bound hS hw' hi (hcov (.on i.low) hi h.covers_low)

/-- A list that covers more and starts at the same bound does not end its first interval earlier. -/
theorem high_le_high (hS : KeySpace S) (h : Normal ⟨j :: others⟩)
    (hw : ∀ k ∈ i :: rest, k.Within S) (hw' : ∀ k ∈ j :: others, k.Within S)
    (hcov : ∀ p : Spot, p.bound.Within S → Covers ⟨i :: rest⟩ p → Covers ⟨j :: others⟩ p)
    (hlow : i.low.le j.low) : i.high.le j.high := by
  by_contra hnot
  have hlt : j.high.lt i.high := Bound.lt_of_not_le hnot
  have hi := hw i (by simp)
  have hj := hw' j (by simp)
  -- The first spot above `j` would lie in `i`, and then in the list of `j` as well.
  cases hhigh : j.high with
  | bottom => exact Interval.high_ne_bottom (h.not_isDegenerate j (by simp)) hhigh
  | top => simp [hhigh] at hnot
  | key v s =>
    have hv : (Bound.key v s).Within S := hhigh ▸ hj.2
    have hp := Spot.within_above hv s
    have hup : ¬ (Spot.above v s).isUpTo j.high := hhigh ▸ Spot.not_isUpTo_above v s
    have hjp : j.low.le (Spot.above v s).bound :=
      Bound.le_trans hS.trans hj.1 hj.2 hp h.low_le_high (Spot.le_bound_of_not_isUpTo hup)
    have hip : i.covers (.above v s) := by
      rw [Interval.covers_iff, Spot.isUpTo_above, ← hhigh]
      exact ⟨Bound.le_trans hS.trans hi.1 hj.1 hp hlow hjp, hlt⟩
    exact h.not_covers_above hS hw' hhigh (hcov _ hp ⟨i, by simp, hip⟩)

end Normal

theorem equiv_iff (s t : IntervalSet) : s.equiv t ↔ List.Forall₂
    (fun i j => i.low.equiv j.low ∧ i.high.equiv j.high) s.intervals t.intervals := by
  simp only [equiv, Bool.and_eq_true, beq_iff_eq, List.all_eq_true,
    List.forall₂_iff_zip, Prod.forall]

/-- Normal lists that cover the same spots have the same ends, one interval after the other. -/
theorem forall₂_of_covers (hS : KeySpace S) : ∀ (xs ys : List Interval), Normal ⟨xs⟩ → Normal ⟨ys⟩ →
    (∀ k ∈ xs, k.Within S) → (∀ k ∈ ys, k.Within S) →
    (∀ p : Spot, p.bound.Within S → (Covers ⟨xs⟩ p ↔ Covers ⟨ys⟩ p)) →
    List.Forall₂ (fun i j => i.low.equiv j.low ∧ i.high.equiv j.high) xs ys := by
  intro xs
  induction xs with
  | nil =>
    intro ys _ hy _ hw hcov
    cases ys with
    | nil => exact .nil
    | cons y ys =>
      have hnil := (hcov (.on y.low) (hw y (by simp)).1).mpr hy.covers_low
      simp [Covers] at hnil
  | cons x xs ih =>
    intro ys hx hy hw hw' hcov
    cases ys with
    | nil =>
      have hnil := (hcov (.on x.low) (hw x (by simp)).1).mp hx.covers_low
      simp [Covers] at hnil
    | cons y ys =>
      have hxy : ∀ p : Spot, p.bound.Within S → Covers ⟨x :: xs⟩ p → Covers ⟨y :: ys⟩ p :=
        fun p hp => (hcov p hp).mp
      have hyx : ∀ p : Spot, p.bound.Within S → Covers ⟨y :: ys⟩ p → Covers ⟨x :: xs⟩ p :=
        fun p hp => (hcov p hp).mpr
      have hlow := hy.low_le_low hS hx hw' hw hyx
      have hlow' := hx.low_le_low hS hy hw hw' hxy
      have hhigh := hy.high_le_high hS hw hw' hxy hlow
      have hhigh' := hx.high_le_high hS hw' hw hyx hlow'
      refine .cons ⟨Bound.equiv_of_le hlow hlow', Bound.equiv_of_le hhigh hhigh'⟩ ?_
      -- Above the first intervals, which end together, the lists cover the same.
      refine ih ys hx.tail hy.tail (fun k hk => hw k (by simp [hk]))
        (fun k hk => hw' k (by simp [hk])) fun p hp => ?_
      have hends : p.isUpTo x.high ↔ p.isUpTo y.high :=
        ⟨fun h => Spot.isUpTo_of_le hS.trans hp (hw x (by simp)).2 (hw' y (by simp)).2 h hhigh,
          fun h => Spot.isUpTo_of_le hS.trans hp (hw' y (by simp)).2 (hw x (by simp)).2 h hhigh'⟩
      rw [hx.covers_tail_iff hS hw hp, hy.covers_tail_iff hS hw' hp, hcov p hp, hends]

/-- **Normal lists that cover the same are equal**, bound by bound. -/
theorem equiv_of_covers (hS : KeySpace S) {s t : IntervalSet} (hs : s.Normal) (ht : t.Normal)
    (hsw : s.Within S) (htw : t.Within S)
    (hcov : ∀ p : Spot, p.bound.Within S → (s.Covers p ↔ t.Covers p)) : s.equiv t :=
  (equiv_iff s t).mpr (forall₂_of_covers hS s.intervals t.intervals hs ht hsw htw hcov)

/-! ### Built sets -/

theorem normal_empty : empty.Normal := ⟨by simp [empty], by simp [empty]⟩

theorem normal_full : full.Normal := by
  refine ⟨fun i hi => ?_, List.IsChain.singleton _⟩
  rw [List.mem_singleton.mp hi]
  decide

/-- Every operation leaves a normal list. -/
theorem Built.normal (hS : KeySpace S) {s : IntervalSet} (h : Built S s) : s.Normal := by
  cases h with
  | empty => exact normal_empty
  | full => exact normal_full
  | points h => exact normal_ofIntervals hS (within_map_point h)
  | ofIntervals h => exact normal_ofIntervals hS h
  | union hs ht => exact normal_ofIntervals hS (within_append hs.within ht.within)
  | intersect hs ht => exact normal_ofIntervals hS (within_pairs hs.within ht.within)
  | complement hs => exact normal_ofIntervals hS (within_gaps _ .bottom trivial hs.within)

theorem Built.covers_union (hS : KeySpace S) {s t : IntervalSet} (hs : Built S s) (ht : Built S t)
    {p : Spot} (hp : p.bound.Within S) : (s.union t).Covers p ↔ s.Covers p ∨ t.Covers p := by
  -- No interval of a normal list is dropped when it is merged again.
  have hkeeps : ∀ i ∈ s.intervals ++ t.intervals, ¬ i.isDegenerate := by
    intro i hi
    rcases List.mem_append.mp hi with hi | hi
    · exact (hs.normal hS).not_isDegenerate i hi
    · exact (ht.normal hS).not_isDegenerate i hi
  rw [IntervalSet.union, covers_ofIntervals hS (within_append hs.within ht.within) hp, Covers,
    Covers, ← exists_or]
  refine exists_congr fun i => ?_
  rw [← or_and_right, ← List.mem_append]
  constructor
  · rintro ⟨hi, -, hc⟩
    exact ⟨hi, hc⟩
  · rintro ⟨hi, hc⟩
    exact ⟨hi, hkeeps i hi, hc⟩

/-! ### Single keys -/

/-- Single keys that are merged are equal, so the first one stays. -/
theorem stretch_points {v w : Value} (h : joins (.point v) (.point w)) :
    stretch (.point v) (.point w) = .point v := by
  have hle : (Bound.exactly w).le (.exactly v) := by
    simpa [joins, Interval.point, Bound.exactly, Bound.adjacent] using h
  exact if_neg fun hlt => Bound.not_le_of_lt hlt hle

/-- A set of single keys consists of single keys, each one of the given values. -/
theorem exists_points_eq (values : List Value) :
    ∃ keys : List Value, (points values).intervals = keys.map .point ∧ ∀ k ∈ keys, k ∈ values := by
  have hparts : ∀ i ∈ sortedParts (values.map .point), ∃ v ∈ values, Interval.point v = i :=
    fun i hi => List.mem_map.mp (mem_sortedParts.mp hi).1
  have hpoints : ∀ i ∈ (points values).intervals, ∃ v ∈ values, Interval.point v = i := by
    change ∀ i ∈ merge (sortedParts (values.map .point)), _
    cases hl : sortedParts (values.map .point) with
    | nil => simp [merge]
    | cons first rest =>
      rw [hl] at hparts
      refine forall_mem_absorb ?_ rest first hparts
      -- Points are joined only if their keys are equal, and then the first one stays.
      rintro _ _ ⟨v, hv, rfl⟩ ⟨w, _, rfl⟩ hj
      exact ⟨v, hv, (stretch_points hj).symm⟩
  generalize (points values).intervals = intervals at hpoints
  induction intervals with
  | nil => exact ⟨[], rfl, by simp⟩
  | cons i intervals ih =>
    obtain ⟨v, hv, rfl⟩ := hpoints i (by simp)
    obtain ⟨keys, rfl, hkeys⟩ := ih fun i hi => hpoints i (List.mem_cons_of_mem _ hi)
    exact ⟨v :: keys, rfl, by simpa [hv] using hkeys⟩

theorem mapM_point? (keys : List Value) : (keys.map .point).mapM Interval.point? = some keys := by
  induction keys with
  | nil => rfl
  | cons k keys ih => simp [ih]

/-- The keys of a set of single keys: the values in increasing order, of equal ones only one. -/
theorem exists_points?_eq (hS : KeySpace S) {values : List Value} (h : ∀ v ∈ values, v ∈ S) :
    ∃ keys : List Value, (points values).points? = some keys ∧
      keys.Pairwise (fun a b => a.keyCmp b = .lt) ∧ (∀ k ∈ keys, k ∈ values) ∧
      ∀ v ∈ values, ∃ k ∈ keys, k.keyEq v := by
  obtain ⟨keys, hkeys, hmem⟩ := exists_points_eq values
  refine ⟨keys, ?_, ?_, hmem, fun v hv => ?_⟩
  · rw [points?, hkeys, mapM_point?]
  · have hapart := (separated_ofIntervals hS (within_map_point h)).apart
    change (points values).intervals.Pairwise _ at hapart
    rw [hkeys, List.pairwise_map] at hapart
    exact hapart.imp fun hlt => by
      simpa [Interval.point, Bound.exactly, Bound.key_lt_key_iff] using hlt
  · have hcontains : (points values).contains v :=
      (contains_points hS h (h v hv)).mpr ⟨v, hv, Value.keyCmp_self v⟩
    rw [contains_iff, hkeys] at hcontains
    simpa [contains_point, Value.keyEq] using hcontains

/-! ### One form -/

/-- **Key sets have one form.**  Merging leaves intervals that can hold a key, each of them below
the next one and not touching it; the order in which they are given makes no difference.  Union is
commutative, associative and idempotent, and single keys come back in strictly increasing order, the
equal ones once. -/
theorem ofIntervals_canonical (hS : TransitiveOn S) :
    (∀ intervals : List Interval, (∀ i ∈ intervals, i.Within S) →
      (ofIntervals intervals).Normal ∧
      ∀ permuted, intervals.Perm permuted → (ofIntervals intervals).equiv (ofIntervals permuted)) ∧
    (∀ s t u : IntervalSet, Built S s → Built S t → Built S u →
      (s.union t).equiv (t.union s) ∧
      ((s.union t).union u).equiv (s.union (t.union u)) ∧
      (s.union s).equiv s) ∧
    (∀ values : List Value, (∀ v ∈ values, v ∈ S) →
      ∃ keys : List Value, (points values).points? = some keys ∧
        keys.Pairwise (fun a b => a.keyCmp b = .lt) ∧ (∀ k ∈ keys, k ∈ values) ∧
        ∀ v ∈ values, ∃ k ∈ keys, k.keyEq v) := by
  have hspace := hS.keySpace
  have hsub : S ⊆ Value.withOthers S := fun _ hv => Or.inl hv
  -- Sets that can be built are compared by what they cover.
  have hequiv : ∀ {s t : IntervalSet}, Built (Value.withOthers S) s → Built (Value.withOthers S) t →
      (∀ p : Spot, p.bound.Within (Value.withOthers S) → (s.Covers p ↔ t.Covers p)) → s.equiv t :=
    fun hs ht => equiv_of_covers hspace (hs.normal hspace) (ht.normal hspace) hs.within ht.within
  refine ⟨fun intervals h => ?_, fun s t u hs ht hu => ?_, fun values h => ?_⟩
  · have hw : ∀ i ∈ intervals, i.Within (Value.withOthers S) := fun i hi => (h i hi).mono hsub
    refine ⟨normal_ofIntervals hspace hw, fun permuted hperm => ?_⟩
    have hw' : ∀ i ∈ permuted, i.Within (Value.withOthers S) :=
      fun i hi => hw i (hperm.mem_iff.mpr hi)
    refine hequiv (.ofIntervals hw) (.ofIntervals hw') fun p hp => ?_
    simp only [covers_ofIntervals hspace hw hp, covers_ofIntervals hspace hw' hp, hperm.mem_iff]
  · replace hs := hs.mono hsub
    replace ht := ht.mono hsub
    replace hu := hu.mono hsub
    refine ⟨hequiv (.union hs ht) (.union ht hs) fun p hp => ?_,
      hequiv (.union (.union hs ht) hu) (.union hs (.union ht hu)) fun p hp => ?_,
      hequiv (.union hs hs) hs fun p hp => ?_⟩
    · rw [hs.covers_union hspace ht hp, ht.covers_union hspace hs hp, or_comm]
    · rw [(hs.union ht).covers_union hspace hu hp, hs.covers_union hspace ht hp,
        hs.covers_union hspace (ht.union hu) hp, ht.covers_union hspace hu hp, or_assoc]
    · rw [hs.covers_union hspace hs hp, or_self]
  · exact exists_points?_eq hspace fun v hv => hsub (h v hv)

/-- Values with an integer and a floating point number that are equal keys, and two texts with
nothing between them. -/
def borderValues : List Value :=
  [.null, .int32 5, .float ⟨0x4014000000000000⟩, .text "a", .text "a\x00"]

/-- Four parts, of which the first three touch or overlap one after the other. -/
def borderParts : List Interval :=
  [⟨.after .null, .before (.int32 5)⟩, .point (.int32 5),
    ⟨.exactly (.float ⟨0x4014000000000000⟩), .after (.text "a")⟩, ⟨.before (.text "a\x00"), .top⟩]

/-- Three parts are merged and the fourth one stays apart, whichever comes first, and `5` and `5.0`
are one key. -/
theorem ofIntervals_canonical_border :
    let S : Set Value := {v | v ∈ borderValues}
    let s : IntervalSet := .ofIntervals borderParts
    TransitiveOn S ∧ (∀ i ∈ borderParts, i.Within S) ∧ s.Normal ∧
      s = ⟨[⟨.after .null, .after (.text "a")⟩, ⟨.before (.text "a\x00"), .top⟩]⟩ ∧
      s.equiv (.ofIntervals borderParts.reverse) ∧ (s.union s).equiv s ∧
      ∃ keys, (points borderValues).points? = some keys ∧
        keys.Pairwise (fun a b => a.keyCmp b = .lt) ∧
          keys = [.null, .int32 5, .text "a", .text "a\x00"] := by
  intro S s
  have htrans : TransitiveOn S := (by decide : ∀ a ∈ borderValues, ∀ b ∈ borderValues,
    ∀ c ∈ borderValues, (a.keyCmp b).isLE → (b.keyCmp c).isLE → (a.keyCmp c).isLE)
  have hparts : ∀ i ∈ borderParts, i.Within S := by
    simp [S, borderValues, borderParts, Interval.Within, Interval.point, Bound.Within, Bound.after,
      Bound.before, Bound.exactly]
  -- The parts are written down in order, so building the set only merges them.
  have hmerged : s = ⟨merge borderParts⟩ :=
    ofIntervals_of_pairwise (by decide) (by decide)
  have hpointed : points borderValues = ⟨merge (borderValues.map .point)⟩ :=
    ofIntervals_of_pairwise (by decide) (by decide)
  obtain ⟨hintervals, hunion, hpoints⟩ := ofIntervals_canonical htrans
  obtain ⟨hnormal, hperm⟩ := hintervals borderParts hparts
  have hs : Built S s := .ofIntervals hparts
  obtain ⟨keys, hkeys, hincreasing, -⟩ := hpoints borderValues fun _ hv => hv
  refine ⟨htrans, hparts, hnormal, ?_, hperm _ (List.reverse_perm _).symm,
    (hunion s s s hs hs hs).2.2, keys, hkeys, hincreasing, ?_⟩
  · rw [hmerged]
    decide
  · rw [hpointed] at hkeys
    exact Option.some.inj (hkeys.symm.trans (by decide))

end IntervalSet

end QueryPlanner
