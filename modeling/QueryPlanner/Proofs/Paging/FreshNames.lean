import Mathlib.Data.List.Nodup
import Mathlib.Data.Nat.Find
import Mathlib.Logic.Function.Iterate
import QueryPlanner.Paging.Collapse

/-!
# Fresh names

The column that numbers rows gets a name that no other column has: the base, or the base with the
first free number.  The names to choose from are listed beforehand, and that there are enough of
them is an argument by counting: names with different numbers differ from each other and from the
base, so the columns cannot have the base and as many numbered names as there are columns.  A search
that tries one number after another and knows no bound therefore comes to an end as well, at the
same name.

## Main definitions

* `Probe`, `Probe.step` — a search that tries one number after another.

## Main results

* `Header.exists_free_number` — **one of as many numbers as there are columns is free**, if the base
  is not.
* `Header.name_ne_freshName` — a fresh name is the name of no column.
* `Probe.exists_after_eq_found` — the search ends at the fresh name.
* `Probe.name_ne_freshName_and_exists_found` — **the fresh name is new, and the search finds it
  within one number more than there are columns**.
-/

namespace QueryPlanner

namespace Header

variable {h : Header} {base : String}

theorem indexOf?_eq_none_iff {name : String} :
    h.indexOf? name = none ↔ name ∉ h.columns.map Column.name := by
  simp [indexOf?, List.findIdx?_eq_none_iff]

/-! ### Counting names -/

theorem numbered_injective (base : String) :
    Function.Injective fun i : Nat => base ++ toString i := by
  intro i j hij
  have hdigits := (String.append_right_inj base).mp hij
  rw [Nat.toString_eq_ofList_toDigits, Nat.toString_eq_ofList_toDigits,
    String.ofList_inj] at hdigits
  rw [← Nat.ofDigitChars_ten_toDigits (n := i), hdigits, Nat.ofDigitChars_ten_toDigits]

theorem base_ne_numbered (base : String) (i : Nat) : base ≠ base ++ toString i := by
  intro heq
  have hlength := congrArg String.length heq
  have hdigits : (toString i).length ≠ 0 := by
    rw [Ne, String.length_eq_zero_iff]
    exact Nat.repr_ne_empty
  rw [String.length_append] at hlength
  omega

/-- The base and its numbered names are all different. -/
theorem nodup_names (base : String) (n : Nat) :
    (base :: (List.range n).map fun i => base ++ toString i).Nodup := by
  refine List.nodup_cons.mpr ⟨fun hmem => ?_, List.nodup_range.map (numbered_injective base)⟩
  obtain ⟨i, -, heq⟩ := List.mem_map.mp hmem
  exact base_ne_numbered base i heq.symm

/-- **One of as many numbers as there are columns is free**, if the base is not. -/
theorem exists_free_number (hbase : h.indexOf? base ≠ none) :
    ∃ i < h.width, h.indexOf? (base ++ toString i) = none := by
  by_contra htaken
  push Not at htaken
  -- The base and the numbered names would be names of columns, and there is one more of them than
  -- columns.
  have hsubset : (base :: (List.range h.width).map fun i => base ++ toString i) ⊆
      h.columns.map Column.name := by
    refine List.cons_subset.mpr ⟨indexOf?_eq_none_iff.not_left.mp hbase, ?_⟩
    intro name hname
    obtain ⟨i, hi, rfl⟩ := List.mem_map.mp hname
    exact indexOf?_eq_none_iff.not_left.mp (htaken i (List.mem_range.mp hi))
  have hlength := (nodup_names base h.width).length_le_of_subset hsubset
  simp only [List.length_cons, List.length_map, List.length_range] at hlength
  exact Nat.not_succ_le_self h.width hlength

/-- The numbers before the first free one are taken. -/
theorem exists_first_free (hbase : h.indexOf? base ≠ none) :
    ∃ n < h.width, h.indexOf? (base ++ toString n) = none ∧
      ∀ i < n, h.indexOf? (base ++ toString i) ≠ none := by
  have hfree : ∃ n, n < h.width ∧ h.indexOf? (base ++ toString n) = none := exists_free_number hbase
  obtain ⟨hlt, hnone⟩ := Nat.find_spec hfree
  refine ⟨Nat.find hfree, hlt, hnone, fun i hi hi' => ?_⟩
  exact Nat.find_min hfree hi ⟨Nat.lt_trans hi hlt, hi'⟩

/-! ### The fresh name -/

theorem freshName_of_free (hbase : h.indexOf? base = none) : h.freshName base = base := by
  simp [freshName, hbase]

theorem freshName_of_taken (hbase : h.indexOf? base ≠ none) {n : Nat} (hlt : n < h.width)
    (hfree : h.indexOf? (base ++ toString n) = none)
    (htaken : ∀ i < n, h.indexOf? (base ++ toString i) ≠ none) :
    h.freshName base = base ++ toString n := by
  have hfind : (List.range (h.width + 1)).find?
      ((fun name => (h.indexOf? name).isNone) ∘ fun i => base ++ toString i) = some n := by
    rw [List.find?_range_eq_some]
    refine ⟨Option.isNone_iff_eq_none.mpr hfree, List.mem_range.mpr (Nat.lt_succ_of_lt hlt), ?_⟩
    intro i hi
    rw [Bool.not_eq_true', Bool.eq_false_iff]
    exact fun hnone => htaken i hi (Option.isNone_iff_eq_none.mp hnone)
  rw [freshName, List.find?_cons_of_neg (by simpa using hbase), List.find?_map, hfind]
  rfl

theorem indexOf?_freshName (h : Header) (base : String) : h.indexOf? (h.freshName base) = none := by
  by_cases hbase : h.indexOf? base = none
  · rw [freshName_of_free hbase, hbase]
  · obtain ⟨n, hlt, hfree, htaken⟩ := exists_first_free hbase
    rw [freshName_of_taken hbase hlt hfree htaken, hfree]

/-- **A fresh name is the name of no column.** -/
theorem name_ne_freshName {c : Column} (hc : c ∈ h.columns) (base : String) :
    c.name ≠ h.freshName base := by
  intro heq
  exact indexOf?_eq_none_iff.mp (h.indexOf?_freshName base) (List.mem_map.mpr ⟨c, hc, heq⟩)

end Header

/-! ### Searching without a bound -/

/-- A search for a free name: on its way to the next number, or at its end. -/
inductive Probe where
  | trying (number : Nat)
  | found (name : String)
  deriving DecidableEq

namespace Probe

/-- A step tries one number. -/
def step (h : Header) (base : String) : Probe → Probe
  | .trying i =>
    if (h.indexOf? (base ++ toString i)).isNone then .found (base ++ toString i)
    else .trying (i + 1)
  | .found name => .found name

/-- The search after some steps; the base itself is tried before the first one. -/
def after (h : Header) (base : String) (steps : Nat) : Probe :=
  (step h base)^[steps] (if (h.indexOf? base).isNone then .found base else .trying 0)

variable {h : Header} {base : String}

theorem after_succ (n : Nat) : after h base (n + 1) = step h base (after h base n) :=
  Function.iterate_succ_apply' _ _ _

theorem step_of_free {i : Nat} (hfree : h.indexOf? (base ++ toString i) = none) :
    step h base (.trying i) = .found (base ++ toString i) :=
  if_pos (Option.isNone_iff_eq_none.mpr hfree)

theorem step_of_taken {i : Nat} (htaken : h.indexOf? (base ++ toString i) ≠ none) :
    step h base (.trying i) = .trying (i + 1) :=
  if_neg fun hnone => htaken (Option.isNone_iff_eq_none.mp hnone)

theorem after_zero_of_free (hbase : h.indexOf? base = none) : after h base 0 = .found base :=
  if_pos (Option.isNone_iff_eq_none.mpr hbase)

/-- As long as the numbers are taken, the search goes on to the next one. -/
theorem after_of_taken (hbase : h.indexOf? base ≠ none) {n : Nat}
    (htaken : ∀ i < n, h.indexOf? (base ++ toString i) ≠ none) : after h base n = .trying n := by
  induction n with
  | zero => exact if_neg fun hnone => hbase (Option.isNone_iff_eq_none.mp hnone)
  | succ n ih =>
    have hbefore : after h base n = .trying n := ih fun i hi => htaken i (Nat.lt_succ_of_lt hi)
    rw [after_succ, hbefore, step_of_taken (htaken n n.lt_succ_self)]

/-- **The search ends at the fresh name**, and it tries no more numbers than there are columns. -/
theorem exists_after_eq_found (h : Header) (base : String) :
    ∃ n ≤ h.width, after h base n = .found (h.freshName base) := by
  by_cases hbase : h.indexOf? base = none
  · refine ⟨0, Nat.zero_le _, ?_⟩
    rw [after_zero_of_free hbase, Header.freshName_of_free hbase]
  · obtain ⟨n, hlt, hfree, htaken⟩ := Header.exists_first_free hbase
    refine ⟨n + 1, hlt, ?_⟩
    rw [after_succ, after_of_taken hbase htaken, step_of_free hfree,
      Header.freshName_of_taken hbase hlt hfree htaken]

/-- Two columns can make the search try two numbers. -/
example : after ⟨[⟨"n", .int64, false⟩, ⟨"n0", .int64, false⟩], []⟩ "n" 1 = .trying 1 ∧
    after ⟨[⟨"n", .int64, false⟩, ⟨"n0", .int64, false⟩], []⟩ "n" 2 = .found "n1" := by decide

/-- **The fresh name is new, and a search without a bound finds it** within one number more than
there are columns. -/
theorem name_ne_freshName_and_exists_found (h : Header) (base : String) :
    (∀ c ∈ h.columns, c.name ≠ h.freshName base) ∧
      ∃ n ≤ h.width + 1, after h base n = .found (h.freshName base) := by
  obtain ⟨n, hle, hfound⟩ := exists_after_eq_found h base
  exact ⟨fun c hc => Header.name_ne_freshName hc base, n, Nat.le_succ_of_le hle, hfound⟩

end Probe

end QueryPlanner
