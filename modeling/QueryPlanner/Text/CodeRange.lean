/-!
# Classes of characters as ranges of code points

A class of characters is a list of closed ranges of code points, ascending and apart. Because the
ranges ascend, a search may stop at the first one that begins after the code point it looks for, so
the common characters at the low end are settled after one or two steps.

* `covers` — whether a code point is in one of the ranges.
* `ascending` — whether a list of ranges is ascending and apart.
* `covers_iff` — on ascending ranges the early stop loses nothing.
-/

namespace QueryPlanner.Text

/-- A closed range of code points: the first and the last. -/
abbrev CodeRange := Nat × Nat

/-- Whether a code point is in one of the ranges, which ascend: the search ends at the first range
that begins after it. -/
def covers : List CodeRange → Nat → Bool
  | [], _ => false
  | r :: rest, n => decide (r.1 ≤ n) && (decide (n ≤ r.2) || covers rest n)

/-- Whether no range is empty and each begins at least one code point after the end of the one
before it. -/
def ascending : List CodeRange → Bool
  | [] => true
  | [r] => decide (r.1 ≤ r.2)
  | r :: s :: rest => decide (r.1 ≤ r.2) && decide (r.2 + 1 < s.1) && ascending (s :: rest)

theorem ascending_tail {r : CodeRange} {rest : List CodeRange} (h : ascending (r :: rest) = true) :
    ascending rest = true := by
  cases rest with
  | nil => rfl
  | cons s rest =>
    simp only [ascending, Bool.and_eq_true] at h
    exact h.2

/-- A code point before the first of ascending ranges is in none of them. -/
theorem lt_of_mem_ascending {n : Nat} :
    ∀ {r : CodeRange} {rest : List CodeRange}, ascending (r :: rest) = true → n < r.1 →
      ∀ s ∈ r :: rest, n < s.1
  | r, [], _, hn, s, hs => by
    rw [List.mem_singleton.mp hs]
    exact hn
  | r, t :: rest, h, hn, s, hs => by
    simp only [ascending, Bool.and_eq_true, decide_eq_true_eq] at h
    rcases List.mem_cons.mp hs with rfl | hs
    · exact hn
    · exact lt_of_mem_ascending h.2 (by omega) s hs

/-- On ascending ranges `covers` finds a code point exactly if one of the ranges contains it. -/
theorem covers_iff {n : Nat} :
    ∀ {rs : List CodeRange}, ascending rs = true →
      (covers rs n = true ↔ ∃ r ∈ rs, r.1 ≤ n ∧ n ≤ r.2)
  | [], _ => by simp [covers]
  | r :: rest, h => by
    by_cases hn : n < r.1
    · -- The search stops here, and all ranges that follow begin even later.
      have hnone : ∀ s ∈ r :: rest, ¬ s.1 ≤ n := fun s hs =>
        Nat.not_le.mpr (lt_of_mem_ascending h hn s hs)
      have hcovers : covers (r :: rest) n = false := by simp [covers, Nat.not_le.mpr hn]
      rw [hcovers]
      constructor
      · intro hfalse
        cases hfalse
      · rintro ⟨s, hs, hle, -⟩
        exact (hnone s hs hle).elim
    · have hr : r.1 ≤ n := Nat.not_lt.mp hn
      simp [covers, hr, covers_iff (ascending_tail h)]

end QueryPlanner.Text
