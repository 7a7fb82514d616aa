import QueryPlanner.Access.RecencyCache

/-!
# What a cache returns

A cache never makes up contents: what it returns for a key is what was stored for it.  So a
statement that holds of every key and content stored holds of everything returned, however entries
come and go.

## Main definitions

* `RecencyCache.Holds` — a statement about every entry of a cache.

## Main results

* `RecencyCache.Holds.getOrInsert` — a lookup keeps the statement and returns a content it holds of.
-/

namespace QueryPlanner

namespace RecencyCache

variable {α : Type} {P : Nat → α → Prop} {c : RecencyCache α} {key : Nat} {content : α}

/-- A statement holds of every key and its content. -/
def Holds (P : Nat → α → Prop) (c : RecencyCache α) : Prop := ∀ e ∈ c.entries, P e.key e.content

theorem holds_ofCapacity (P : Nat → α → Prop) (capacity : Nat) :
    (ofCapacity capacity : RecencyCache α).Holds P := by
  intro e he
  cases he

theorem Holds.of_peek? (h : c.Holds P) (hpeek : c.peek? key = some content) : P key content := by
  obtain ⟨e, he, rfl⟩ := Option.map_eq_some_iff.mp hpeek
  have hkey : e.key = key := by simpa using List.find?_some he
  exact hkey ▸ h e (List.mem_of_find?_eq_some he)

/-- Looking an entry up changes the time of its last use only. -/
theorem Holds.get (h : c.Holds P) : (c.get key).2.Holds P := by
  unfold RecencyCache.get
  dsimp only
  split
  · intro e he
    obtain ⟨e', he', rfl⟩ := List.mem_map.mp he
    split
    · exact h e' he'
    · exact h e' he'
  · exact h

theorem Holds.evict (h : c.Holds P) : c.evict.Holds P := by
  unfold RecencyCache.evict
  split
  · exact h
  · exact fun e he => h e (List.mem_filter.mp he).1

theorem Holds.insert (h : c.Holds P) (hnew : P key content) : (c.insert key content).Holds P := by
  unfold RecencyCache.insert
  split
  · exact h
  · -- Room may have been made for the new entry.
    have hroom : (if c.capacity ≤ c.size && !c.contains key then c.evict else c).Holds P := by
      split
      · exact h.evict
      · exact h
    intro e he
    rcases List.mem_cons.mp he with rfl | he
    · exact hnew
    · exact hroom e (List.mem_filter.mp he).1

theorem Holds.invalidate (h : c.Holds P) : (c.invalidate key).2.Holds P :=
  fun e he => h e (List.mem_filter.mp he).1

theorem holds_clear (P : Nat → α → Prop) (c : RecencyCache α) : c.clear.Holds P := by
  intro e he
  cases he

/-- **A lookup keeps what holds of all entries, and returns a content it holds of.** -/
theorem Holds.getOrInsert (h : c.Holds P) (hnew : P key content) :
    P key (c.getOrInsert key content).1.2 ∧ (c.getOrInsert key content).2.Holds P := by
  have hget : (c.get key).2.Holds P := h.get
  unfold RecencyCache.getOrInsert
  split
  · -- A hit answers with what was held for the key.
    rename_i found c' heq
    rw [heq] at hget
    refine ⟨?_, hget⟩
    cases hpeek : c.peek? key with
    | none => simp [RecencyCache.get, hpeek] at heq
    | some content =>
      have hfound : content = found := by
        have hfst := congrArg Prod.fst heq
        simpa [RecencyCache.get, hpeek] using hfst
      exact hfound ▸ h.of_peek? hpeek
  · -- A miss answers with the new content, which is held from now on.
    rename_i c' heq
    rw [heq] at hget
    exact ⟨hnew, hget.insert hnew⟩

end RecencyCache

end QueryPlanner
