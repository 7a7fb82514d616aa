import Mathlib.Data.String.Basic
import Mathlib.Order.Bounds.Basic
import QueryPlanner.Key.Condition
import QueryPlanner.Proofs.Key.Sets

/-!
# Texts with a common beginning, as an interval of keys

The texts that start with a given one lie between it and the text got by raising its last character
that can be raised.  Characters are ordered by code point and the surrogates are no characters, so
the character after `U+D7FF` is `U+E000` and none comes after `U+10FFFF`.  A text of such last
characters alone cannot be raised, and nothing bounds the texts that start with it.

## Main results

* `lt_iff_le_of_nextChar?` — no character lies between one and the next.
* `prefix_iff_between` — starting with a text is lying between it and the raised text.
* `isLeast_textAbove?` — the raised text is the least one above all texts with a beginning.
* `IntervalSet.contains_startingWith` — the interval of a beginning, on text keys and null.
* `IntervalSet.startingWith_exact` — **the interval of a beginning is exact**.
-/

namespace QueryPlanner

open Value (KeySpace)

/-! ### The next character -/

theorem toNat_ofNat {n : Nat} (h : n.isValidChar) : (Char.ofNat n).toNat = n := by
  rw [Char.ofNat, dif_pos h]
  rfl

theorem isValidChar_toNat (c : Char) :
    c.toNat < 0xD800 ∨ (0xDFFF < c.toNat ∧ c.toNat < 0x110000) := c.valid

/-- Only the last character has no next one. -/
theorem nextChar?_eq_none_iff (c : Char) : nextChar? c = none ↔ c.toNat = 0x10FFFF := by
  unfold nextChar?
  split
  · simp_all
  · split <;> simp_all

/-- No character comes after one that has no next one. -/
theorem le_of_nextChar?_eq_none {c : Char} (h : nextChar? c = none) (e : Char) :
    e.toNat ≤ c.toNat := by
  have he := isValidChar_toNat e
  rw [nextChar?_eq_none_iff] at h
  omega

/-- No character lies strictly between one and the next. -/
theorem lt_iff_le_of_nextChar? {c d : Char} (h : nextChar? c = some d) (e : Char) :
    e.toNat < d.toNat ↔ e.toNat ≤ c.toNat := by
  have hc := isValidChar_toNat c
  have he := isValidChar_toNat e
  unfold nextChar? at h
  split at h
  · obtain rfl := Option.some.inj h
    rw [toNat_ofNat (by decide)]
    omega
  · split at h
    · simp at h
    · obtain rfl := Option.some.inj h
      rw [toNat_ofNat (by unfold Nat.isValidChar; omega)]
      omega

/-! ### Raising a text -/

/-- Raising works on the last character that can be raised, so one more in front matters only if
none of the others can be. -/
theorem raiseReversed_append_singleton (c : Char) : ∀ cs : List Char,
    raiseReversed (cs ++ [c]) =
      match raiseReversed cs with
      | some ds => some (ds ++ [c])
      | none => (nextChar? c).map fun d => [d] := by
  intro cs
  induction cs with
  | nil => cases h : nextChar? c <;> simp [raiseReversed, h]
  | cons a cs ih => cases h : nextChar? a <;> simp [raiseReversed, h, ih]

/-- A text is below another one, or there is no other one. -/
def BelowRaised (t : List Char) : Option (List Char) → Prop
  | some next => t < next.reverse
  | none => True

theorem char_lt_iff (c d : Char) : c < d ↔ c.toNat < d.toNat := Iff.rfl

/-- **Starting with a text is lying between it and the raised text.** -/
theorem prefix_iff_between : ∀ s t : List Char,
    s <+: t ↔ ¬ t < s ∧ BelowRaised t (raiseReversed s.reverse) := by
  intro s
  induction s with
  | nil =>
    intro t
    simp [raiseReversed, BelowRaised]
  | cons c s ih =>
    intro t
    cases t with
    | nil => simp
    | cons x t =>
      have hx : ¬ x :: t < c :: s ↔ c.toNat ≤ x.toNat ∧ (x = c → ¬ t < s) := by
        rw [List.cons_lt_cons_iff, char_lt_iff]
        simp
      -- The first character is raised only if nothing after it can be; texts that start with a
      -- greater one lie above the raised text in either case.
      have hbetween : BelowRaised (x :: t) (raiseReversed (c :: s).reverse) ∧ c.toNat ≤ x.toNat ↔
          x = c ∧ BelowRaised t (raiseReversed s.reverse) := by
        rw [List.reverse_cons, raiseReversed_append_singleton]
        cases hr : raiseReversed s.reverse with
        | some ds =>
          simp only [BelowRaised, List.reverse_append, List.reverse_singleton,
            List.singleton_append, List.cons_lt_cons_iff, char_lt_iff]
          constructor
          · rintro ⟨hlt | ⟨rfl, ht⟩, hle⟩
            · omega
            · exact ⟨rfl, ht⟩
          · rintro ⟨rfl, ht⟩
            exact ⟨Or.inr ⟨rfl, ht⟩, le_refl _⟩
        | none =>
          cases hn : nextChar? c with
          | some d =>
            simp only [BelowRaised, Option.map_some, List.reverse_singleton,
              List.cons_lt_cons_iff, char_lt_iff, lt_iff_le_of_nextChar? hn, List.not_lt_nil,
              and_false, or_false, and_true]
            rw [← Char.toNat_inj]
            omega
          | none =>
            have hle := le_of_nextChar?_eq_none hn x
            simp only [BelowRaised, Option.map_none, true_and, and_true]
            rw [← Char.toNat_inj]
            omega
      rw [List.cons_prefix_cons, ih t, hx]
      constructor
      · rintro ⟨rfl, hts, hb⟩
        obtain ⟨hb', hle⟩ := hbetween.mpr ⟨rfl, hb⟩
        exact ⟨⟨hle, fun _ => hts⟩, hb'⟩
      · rintro ⟨⟨hle, hts⟩, hb⟩
        obtain ⟨rfl, hb'⟩ := hbetween.mp ⟨hb, hle⟩
        exact ⟨rfl, hts rfl, hb'⟩

/-- Raising fails only if no character can be raised. -/
theorem raiseReversed_eq_none_iff (cs : List Char) :
    raiseReversed cs = none ↔ ∀ c ∈ cs, c.toNat = 0x10FFFF := by
  induction cs with
  | nil => simp [raiseReversed]
  | cons c cs ih =>
    rw [List.forall_mem_cons, ← nextChar?_eq_none_iff, ← ih]
    cases h : nextChar? c <;> simp [raiseReversed, h]

/-! ### The least text above a beginning -/

theorem textAbove?_eq_none_iff (start : String) :
    textAbove? start = none ↔ ∀ c ∈ start.toList, c.toNat = 0x10FFFF := by
  rw [textAbove?, Option.map_eq_none_iff, raiseReversed_eq_none_iff]
  simp only [List.mem_reverse]

theorem startsWith_iff_of_textAbove? {start next : String} (h : textAbove? start = some next)
    (s : String) : TextMethod.startsWith.apply s start = true ↔ ¬ s < start ∧ s < next := by
  obtain ⟨ds, hds, rfl⟩ := Option.map_eq_some_iff.mp h
  have hbetween := prefix_iff_between start.toList s.toList
  rw [hds, BelowRaised] at hbetween
  rw [TextMethod.apply, List.isPrefixOf_iff_prefix, hbetween, String.lt_iff, String.lt_iff,
    String.toList_ofList]

/-- **The raised text is the least one above all texts that start with the given one.** -/
theorem isLeast_textAbove? {start next : String} (h : textAbove? start = some next) :
    IsLeast {t : String | ∀ s, TextMethod.startsWith.apply s start = true → s < t} next := by
  refine ⟨fun s hs => ((startsWith_iff_of_textAbove? h s).mp hs).2, fun t ht => ?_⟩
  have hself : TextMethod.startsWith.apply start start = true := by simp [TextMethod.apply]
  -- A lesser text would lie between the two, so it would be one of those that it is above.
  by_contra hnot
  have hstart : TextMethod.startsWith.apply t start = true :=
    (startsWith_iff_of_textAbove? h t).mpr ⟨(ht start hself).asymm, not_le.mp hnot⟩
  exact lt_irrefl t (ht t hstart)

/-! ### The interval of a beginning -/

theorem keyCmp_text (s t : String) : (Value.text s).keyCmp (.text t) = compare s t := rfl

theorem compare_text_eq_lt (s t : String) : compare s t = .lt ↔ s.toList < t.toList := by
  rw [← String.lt_iff]
  exact compareOfLessAndEq_eq_lt

theorem isLE_compare_text (s t : String) : (compare s t).isLE ↔ ¬ t.toList < s.toList := by
  rw [← compare_text_eq_lt t s, ← Value.swap_compare s t]
  cases compare s t <;> simp

namespace IntervalSet

variable {S : Set Value}

/-- The upper end of the interval of a beginning. -/
def raisedEnd (start : String) : Bound :=
  match textAbove? start with
  | some next => .before (.text next)
  | none => .top

theorem within_raisedEnd (hS : KeySpace S) (start : String) :
    (raisedEnd start).Within S := by
  unfold raisedEnd
  split
  · exact hS.text _
  · trivial

theorem exactly_le_raisedEnd (t start : String) : (Bound.exactly (.text t)).le (raisedEnd start) ↔
    BelowRaised t.toList (raiseReversed start.toList.reverse) := by
  unfold raisedEnd textAbove?
  cases raiseReversed start.toList.reverse with
  | none => simp [BelowRaised]
  | some ds =>
    simp only [Option.map_some, BelowRaised]
    have hlt := compare_text_eq_lt t (String.ofList ds.reverse)
    rw [String.toList_ofList] at hlt
    rw [← hlt]
    simp only [Bound.le, Bound.exactly, Bound.before, Bound.cmp, keyCmp_text]
    cases compare t (String.ofList ds.reverse) <;> decide

/-- The interval of a beginning holds the texts that start with it, and null does not lie in it. -/
theorem contains_startingWith (hS : KeySpace S) (start : String) {v : Value}
    (hv : v.isNull ∨ v.cls = .text) :
    (startingWith start).contains v ↔
      ∃ t, v = .text t ∧ TextMethod.startsWith.apply t start = true := by
  have hvS : v ∈ S := by
    cases v <;> simp [Value.isNull, Value.cls] at hv
    · exact hS.null
    · exact hS.text _
  have hw : ∀ i ∈ [(⟨.exactly (.text start), raisedEnd start⟩ : Interval)], i.Within S := by
    intro i hi
    rw [List.mem_singleton.mp hi]
    exact ⟨hS.text start, within_raisedEnd hS start⟩
  have hset : startingWith start
      = ofIntervals [(⟨.exactly (.text start), raisedEnd start⟩ : Interval)] := rfl
  rw [hset, contains_ofIntervals hS hw hvS]
  simp only [List.mem_singleton, exists_eq_left, Interval.contains_iff]
  cases v <;> simp [Value.isNull, Value.cls] at hv
  · -- Null comes before every text.
    constructor
    · rintro ⟨hlow, -⟩
      have hnot : (Bound.exactly (.text start)).le (.exactly .null) = false := rfl
      simp [hnot] at hlow
    · rintro ⟨t, ht, -⟩
      simp at ht
  · rename_i t
    have hlow : (Bound.exactly (.text start)).le (.exactly (.text t)) ↔
        ¬ t.toList < start.toList := by
      rw [← isLE_compare_text, Bound.le_eq_isLE]
      simp only [Bound.exactly, Bound.cmp, keyCmp_text]
      cases compare start t <;> simp
    rw [hlow, exactly_le_raisedEnd, ← prefix_iff_between, ← List.isPrefixOf_iff_prefix]
    simp [TextMethod.apply]

theorem contains_startingWith_text (start s : String) :
    (startingWith start).contains (.text s) ↔ TextMethod.startsWith.apply s start = true := by
  -- Texts are compared with texts only, so the numbers can be left out of the key space.
  have hspace : KeySpace (Value.withOthers ∅) := Value.TransitiveOn.keySpace fun _ h => h.elim
  rw [contains_startingWith hspace start (Or.inr rfl)]
  simp

/-- **The interval of a beginning is exact**: it holds the texts with that beginning and no others.
It is unbounded only if every character is the last one there is, and otherwise it ends at the least
text above all of them. -/
theorem startingWith_exact (start : String) :
    (∀ s, (startingWith start).contains (.text s) ↔ TextMethod.startsWith.apply s start = true) ∧
      (textAbove? start = none ↔ ∀ c ∈ start.toList, c.toNat = 0x10FFFF) ∧
      ∀ next, textAbove? start = some next →
        IsLeast {t : String | ∀ s, TextMethod.startsWith.apply s start = true → s < t} next :=
  ⟨contains_startingWith_text start, textAbove?_eq_none_iff start, fun _ => isLeast_textAbove?⟩

/-- The last character is dropped, and the one before it is raised past the surrogates. -/
theorem startingWith_exact_beforeSurrogates :
    textAbove? (String.ofList ['a', Char.ofNat 0xD7FF, Char.ofNat 0x10FFFF]) =
        some (String.ofList ['a', Char.ofNat 0xE000]) ∧
      IsLeast {t : String | ∀ s, TextMethod.startsWith.apply s
        (String.ofList ['a', Char.ofNat 0xD7FF, Char.ofNat 0x10FFFF]) = true → s < t}
          (String.ofList ['a', Char.ofNat 0xE000]) := by
  have hraised : textAbove? (String.ofList ['a', Char.ofNat 0xD7FF, Char.ofNat 0x10FFFF]) =
      some (String.ofList ['a', Char.ofNat 0xE000]) := by decide
  exact ⟨hraised, (startingWith_exact _).2.2 _ hraised⟩

end IntervalSet

end QueryPlanner
