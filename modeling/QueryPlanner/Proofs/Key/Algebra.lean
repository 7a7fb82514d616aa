import QueryPlanner.Proofs.Key.Sets

/-!
# The algebra of key sets

The sets that can be built from keys and intervals by union, intersection and complement hold
exactly the keys that the operations say.  The complement of a set is read off its intervals, which
is right only as long as they follow each other with a gap between, so the sets that can be built
are shown to keep that shape first.

## Main definitions

* `IntervalSet.Built` — the sets built from values of a set by the set operations.

## Main results

* `IntervalSet.Built.separated` — the intervals of such a set follow each other with a gap between.
* `IntervalSet.contains_of_isFull` — a set that calls itself full holds every key.
* `IntervalSet.contains_algebra` — **key sets form a Boolean algebra of keys**.
-/

namespace QueryPlanner

open Value (TransitiveOn KeySpace)

namespace IntervalSet

/-- The sets built by the set operations from keys and intervals with values in a set. -/
inductive Built (S : Set Value) : IntervalSet → Prop where
  | empty : Built S .empty
  | full : Built S .full
  | points {values : List Value} (h : ∀ v ∈ values, v ∈ S) : Built S (.points values)
  | ofIntervals {intervals : List Interval} (h : ∀ i ∈ intervals, i.Within S) :
      Built S (.ofIntervals intervals)
  | union {s t : IntervalSet} (hs : Built S s) (ht : Built S t) : Built S (s.union t)
  | intersect {s t : IntervalSet} (hs : Built S s) (ht : Built S t) : Built S (s.intersect t)
  | complement {s : IntervalSet} (hs : Built S s) : Built S s.complement

variable {S T : Set Value}

/-! ### The shape of built sets -/

theorem Built.within {s : IntervalSet} (h : Built S s) : s.Within S := by
  induction h with
  | empty => exact within_empty
  | full => exact within_full
  | points h => exact within_ofIntervals (within_map_point h)
  | ofIntervals h => exact within_ofIntervals h
  | union _ _ ihs iht => exact within_ofIntervals (within_append ihs iht)
  | intersect _ _ ihs iht => exact within_ofIntervals (within_pairs ihs iht)
  | complement _ ih => exact within_ofIntervals (within_gaps _ .bottom trivial ih)

theorem Built.mono {s : IntervalSet} (h : Built S s) (hST : S ⊆ T) : Built T s := by
  induction h with
  | empty => exact .empty
  | full => exact .full
  | points h => exact .points fun v hv => hST (h v hv)
  | ofIntervals h => exact .ofIntervals fun i hi => (h i hi).mono hST
  | union _ _ ihs iht => exact .union ihs iht
  | intersect _ _ ihs iht => exact .intersect ihs iht
  | complement _ ih => exact .complement ih

/-- The intervals of a built set follow each other with a gap between. -/
theorem Built.separated (hS : KeySpace S) {s : IntervalSet} (h : Built S s) : s.Separated := by
  -- Every operation ends in merging intervals, whatever the shape of its operands was.
  cases h with
  | empty => exact separated_empty
  | full => exact separated_full
  | points h => exact separated_ofIntervals hS (within_map_point h)
  | ofIntervals h => exact separated_ofIntervals hS h
  | union hs ht => exact separated_ofIntervals hS (within_append hs.within ht.within)
  | intersect hs ht => exact separated_ofIntervals hS (within_pairs hs.within ht.within)
  | complement hs => exact separated_ofIntervals hS (within_gaps _ .bottom trivial hs.within)

/-! ### Full and empty sets -/

/-- A set that calls itself full holds every key. -/
theorem contains_of_isFull {s : IntervalSet} (h : s.isFull) (v : Value) : s.contains v := by
  obtain ⟨intervals⟩ := s
  unfold isFull at h
  match intervals, h with
  | [i], h =>
    simp only [Bool.and_eq_true, Bool.or_eq_true, beq_iff_eq] at h
    have hlow : i.low.le (.exactly v) := by
      rcases h.2 with hbottom | hadjacent
      · rw [hbottom]
        exact Bound.bottom_le _
      · exact Bound.le_exactly_of_adjacent_bottom hadjacent v
    rw [contains_iff]
    refine ⟨i, by simp, (Interval.contains_iff i v).mpr ⟨hlow, ?_⟩⟩
    rw [h.1]
    exact Bound.le_top _

theorem not_contains_of_isEmpty {s : IntervalSet} (h : s.isEmpty) (v : Value) : ¬ s.contains v := by
  have hnil : s.intervals = [] := List.isEmpty_iff.mp h
  simp [contains, hnil]

/-! ### Keys of built sets -/

/-- **Key sets form a Boolean algebra of keys**: a set built from intervals holds the keys of the
intervals, and union, intersection and complement of sets, however these were built, are those of
their keys; a set that calls itself full holds every key, and one that calls itself empty none. -/
theorem contains_algebra (hS : TransitiveOn S) :
    (∀ intervals : List Interval, (∀ i ∈ intervals, i.Within S) → ∀ v ∈ S,
      ((ofIntervals intervals).contains v ↔ ∃ i ∈ intervals, i.contains v)) ∧
    (∀ s t : IntervalSet, Built S s → Built S t → ∀ v ∈ S,
      ((s.union t).contains v ↔ s.contains v ∨ t.contains v) ∧
      ((s.intersect t).contains v ↔ s.contains v ∧ t.contains v)) ∧
    (∀ s : IntervalSet, Built S s → (∀ v ∈ S, (s.complement.contains v ↔ ¬ s.contains v)) ∧
      (s.isFull → ∀ v, s.contains v) ∧ (s.isEmpty → ∀ v, ¬ s.contains v)) := by
  -- Keys that are not numbers are always in order, so `S` may be taken to hold all of them.
  have hspace := hS.keySpace
  have hsub : S ⊆ Value.withOthers S := fun _ hv => Or.inl hv
  refine ⟨?_, ?_, ?_⟩
  · intro intervals h v hv
    exact contains_ofIntervals hspace (fun i hi => (h i hi).mono hsub) (hsub hv)
  · intro s t hs ht v hv
    have hs' := (hs.mono hsub).within
    have ht' := (ht.mono hsub).within
    exact ⟨contains_union hspace hs' ht' (hsub hv), contains_intersect hspace hs' ht' (hsub hv)⟩
  · intro s hs
    have hs' := hs.mono hsub
    exact ⟨fun v hv => contains_complement hspace hs'.within (hs'.separated hspace) (hsub hv),
      fun h => contains_of_isFull h, fun h => not_contains_of_isEmpty h⟩

/-- Values of four classes, numbers of three types among them. -/
def mixedValues : List Value := [.null, .int32 1, .float ⟨0x3ff8000000000000⟩, .int64 2, .text "a"]

/-- What lies above one and below two, and what lies not above null, which is null alone. -/
def mixedParts : List Interval :=
  [⟨.after (.int32 1), .before (.int64 2)⟩, ⟨.bottom, .exactly .null⟩]

/-- Of the mixed values only two is left outside of one, `"a"` and the two intervals. -/
theorem contains_algebra_mixed :
    let S : Set Value := {v | v ∈ mixedValues}
    let s : IntervalSet := .points [.int32 1, .text "a"]
    let t : IntervalSet := .ofIntervals mixedParts
    TransitiveOn S ∧ Built S s ∧ Built S t ∧
      ∀ v ∈ S, ((s.union t).complement.contains v ↔ v = .int64 2) := by
  intro S s t
  have htrans : TransitiveOn S := (by decide : ∀ a ∈ mixedValues, ∀ b ∈ mixedValues,
    ∀ c ∈ mixedValues, (a.keyCmp b).isLE → (b.keyCmp c).isLE → (a.keyCmp c).isLE)
  have hmem : Value.int32 1 ∈ S ∧ Value.int64 2 ∈ S ∧ Value.text "a" ∈ S ∧ Value.null ∈ S := by
    simp [S, mixedValues]
  have hpoints : ∀ v ∈ [Value.int32 1, .text "a"], v ∈ S := by simp [hmem]
  have hparts : ∀ i ∈ mixedParts, i.Within S := by
    simp [mixedParts, Interval.Within, Bound.Within, Bound.after, Bound.before, Bound.exactly, hmem]
  have hs : Built S s := .points hpoints
  have ht : Built S t := .ofIntervals hparts
  obtain ⟨hintervals, hboth, hone⟩ := contains_algebra htrans
  have hleft : ∀ v ∈ S, (s.contains v ↔
      ∃ i ∈ [Interval.point (.int32 1), .point (.text "a")], i.contains v) :=
    fun v hv => hintervals _ (within_map_point hpoints) v hv
  refine ⟨htrans, hs, ht, fun v hv => ?_⟩
  rw [(hone _ (.union hs ht)).1 v hv, (hboth s t hs ht v hv).1, hleft v hv,
    hintervals mixedParts hparts v hv]
  -- What is left speaks of finitely many values.
  revert v
  exact (by decide : ∀ v ∈ mixedValues,
    (¬ ((∃ i ∈ [Interval.point (.int32 1), .point (.text "a")], i.contains v) ∨
      ∃ i ∈ mixedParts, i.contains v) ↔ v = .int64 2))

end IntervalSet

end QueryPlanner
