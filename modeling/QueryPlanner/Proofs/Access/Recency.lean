import QueryPlanner.Access.RecencyCache

/-!
# A cache keeps its entries by last use

A cache stamps entries with the time of their last use and looks for the oldest stamp when it is
full.  That is the same as keeping the entries in a list, the one used last in front: stamps are
never given twice, so there is always exactly one oldest entry, and it is the last of the list.  In
particular it does not matter in which order the entries lie when the oldest one is looked for.

## Main definitions

* `RecencyList` — entries in a list by last use, with the operations of a cache.
* `RecencyCache.Use`, `RecencyCache.Sight` — what is done with a cache, and what is seen of it.
* `RecencyCache.Logs` — what can be seen of a cache whose entries lie in any order.
* `RecencyCache.Follows` — a cache has the entries of a list, stamped by their places.

## Main results

* `RecencyCache.ByUse.oldest?_eq` — the oldest entry is the last one by last use.
* `RecencyCache.Follows.use` — a cache goes on to follow a list when both are used.
* `RecencyCache.log_ofCapacity` — **a cache is seen to do what a list by last use does**.
-/

namespace QueryPlanner

open RecencyCache (Counters)

/-! ### Lists by last use -/

/-- Entries by their last use, the latest in front. -/
structure RecencyList (α : Type) where
  capacity : Nat
  entries : List (Nat × α)
  counters : Counters

namespace RecencyList

variable {α : Type}

/-- No entries yet. -/
def ofCapacity (capacity : Nat) : RecencyList α := ⟨capacity, [], ⟨0, 0, 0⟩⟩

/-- The number of entries. -/
def size (r : RecencyList α) : Nat := r.entries.length

/-- Whether there is an entry with a key; this is no use of it. -/
def contains (r : RecencyList α) (key : Nat) : Bool := (r.entries.lookup key).isSome

/-- The entries with other keys. -/
def others (r : RecencyList α) (key : Nat) : List (Nat × α) := r.entries.filter fun e => e.1 != key

/-- Looks an entry up and moves it to the front. -/
def get (r : RecencyList α) (key : Nat) : Option α × RecencyList α :=
  match r.entries.lookup key with
  | some content =>
    (some content, ⟨r.capacity, (key, content) :: r.others key,
      { r.counters with hits := r.counters.hits + 1 }⟩)
  | none => (none, { r with counters.misses := r.counters.misses + 1 })

/-- Puts an entry in front. One with the same key is replaced; for a new key the last entry goes if
there is no room. Where there is never room nothing is kept. -/
def insert (r : RecencyList α) (key : Nat) (content : α) : RecencyList α :=
  if r.capacity = 0 then r
  else if r.contains key then { r with entries := (key, content) :: r.others key }
  else if r.size < r.capacity then { r with entries := (key, content) :: r.entries }
  else
    { r with
      entries := (key, content) :: r.entries.dropLast
      counters.evictions := r.counters.evictions + 1 }

/-- The content of an entry, which is inserted if there is none. -/
def getOrInsert (r : RecencyList α) (key : Nat) (content : α) : (Bool × α) × RecencyList α :=
  match r.get key with
  | (some found, r) => ((false, found), r)
  | (none, r) => ((true, content), r.insert key content)

/-- Drops an entry, and tells whether there was one. -/
def invalidate (r : RecencyList α) (key : Nat) : Bool × RecencyList α :=
  (r.contains key, { r with entries := r.others key })

/-- Drops all entries; the counters stay. -/
def clear (r : RecencyList α) : RecencyList α := { r with entries := [] }

end RecencyList

/-! ### Using a cache -/

namespace RecencyCache

variable {α : Type}

/-- What can be done with a cache. -/
inductive Use (α : Type) where
  | get (key : Nat)
  | insert (key : Nat) (content : α)
  | getOrInsert (key : Nat) (content : α)
  | invalidate (key : Nat)
  | clear

/-- What a cache answers. -/
inductive Answer (α : Type) where
  | found (content : Option α)
  | given (isNew : Bool) (content : α)
  | dropped (wasThere : Bool)
  | done

/-- What is seen when a cache is used: the answer, and the size and the counters after it. -/
structure Sight (α : Type) where
  answer : Answer α
  size : Nat
  counters : Counters

/-- One use of a cache: its answer, and the cache after it. -/
def use (c : RecencyCache α) : Use α → Answer α × RecencyCache α
  | .get key => (.found (c.get key).1, (c.get key).2)
  | .insert key content => (.done, c.insert key content)
  | .getOrInsert key content =>
    (.given (c.getOrInsert key content).1.1 (c.getOrInsert key content).1.2,
      (c.getOrInsert key content).2)
  | .invalidate key => (.dropped (c.invalidate key).1, (c.invalidate key).2)
  | .clear => (.done, c.clear)

/-- What is seen of one use of a cache. -/
def see (used : Answer α × RecencyCache α) : Sight α := ⟨used.1, used.2.size, used.2.counters⟩

/-- What is seen of a cache while it is used. -/
def log (c : RecencyCache α) : List (Use α) → List (Sight α)
  | [] => []
  | u :: us => see (c.use u) :: (c.use u).2.log us

/-- What can be seen of a cache while it is used, if its entries lie in any order each time. -/
inductive Logs : RecencyCache α → List (Use α) → List (Sight α) → Prop
  | nil (c : RecencyCache α) : Logs c [] []
  | cons {c : RecencyCache α} {entries : List (Entry α)} {u : Use α} {us : List (Use α)}
      {sights : List (Sight α)} (reordered : entries.Perm c.entries)
      (rest : Logs ({ c with entries := entries }.use u).2 us sights) :
      Logs c (u :: us) (see ({ c with entries := entries }.use u) :: sights)

theorem logs_log : ∀ (us : List (Use α)) (c : RecencyCache α), c.Logs us (c.log us) := by
  intro us
  induction us with
  | nil => intro c; exact .nil c
  | cons u us ih => intro c; exact .cons (List.Perm.refl c.entries) (ih (c.use u).2)

end RecencyCache

namespace RecencyList

variable {α : Type}

open RecencyCache (Use Answer Sight)

/-- One use of a list by last use: the answer, and the list after it. -/
def use (r : RecencyList α) : Use α → Answer α × RecencyList α
  | .get key => (.found (r.get key).1, (r.get key).2)
  | .insert key content => (.done, r.insert key content)
  | .getOrInsert key content =>
    (.given (r.getOrInsert key content).1.1 (r.getOrInsert key content).1.2,
      (r.getOrInsert key content).2)
  | .invalidate key => (.dropped (r.invalidate key).1, (r.invalidate key).2)
  | .clear => (.done, r.clear)

/-- What is seen of one use of a list. -/
def see (used : Answer α × RecencyList α) : Sight α := ⟨used.1, used.2.size, used.2.counters⟩

theorem capacity_insert (r : RecencyList α) (key : Nat) (content : α) :
    (r.insert key content).capacity = r.capacity := by
  unfold insert
  repeat' split
  all_goals rfl

theorem capacity_get (r : RecencyList α) (key : Nat) : (r.get key).2.capacity = r.capacity := by
  unfold get
  split <;> rfl

theorem capacity_use (r : RecencyList α) (u : Use α) : (r.use u).2.capacity = r.capacity := by
  cases u with
  | get key => exact r.capacity_get key
  | insert key content => exact r.capacity_insert key content
  | getOrInsert key content =>
    have hget := r.capacity_get key
    simp only [use, getOrInsert]
    split
    · next heq => rw [heq] at hget; exact hget
    · next heq => rw [heq] at hget; exact (capacity_insert _ _ _).trans hget
  | invalidate key => rfl
  | clear => rfl

/-- What is seen of a list while it is used. -/
def log (r : RecencyList α) : List (Use α) → List (Sight α)
  | [] => []
  | u :: us => see (r.use u) :: (r.use u).2.log us

end RecencyList

/-! ### Entries by last use -/

namespace RecencyCache

variable {α : Type} {key : Nat} {content : α} {entries : List (Entry α)}

/-- The key and the content of an entry. -/
def Entry.pair (e : Entry α) : Nat × α := (e.key, e.content)

/-- Entries that are told apart by their keys are found exactly if they are there. -/
theorem find?_eq_some_iff {e : Entry α} (h : entries.Pairwise fun e f => e.key ≠ f.key) :
    entries.find? (fun e => e.key == key) = some e ↔ e ∈ entries ∧ e.key = key := by
  induction entries with
  | nil => simp
  | cons f rest ih =>
    obtain ⟨hf, hrest⟩ := List.pairwise_cons.mp h
    rw [List.find?_cons]
    by_cases hkey : f.key = key
    · -- No other entry has the key of the first one.
      have hbeq : (f.key == key) = true := by simp [hkey]
      rw [hbeq]
      constructor
      · intro he
        obtain rfl := Option.some.inj he
        exact ⟨by simp, hkey⟩
      · rintro ⟨he, hekey⟩
        rcases List.mem_cons.mp he with rfl | he
        · rfl
        · exact absurd (hkey.trans hekey.symm) (hf e he)
    · have hbeq : (f.key == key) = false := by simp [hkey]
      rw [hbeq]
      refine (ih hrest).trans ⟨fun he => ⟨by simp [he.1], he.2⟩, fun he => ⟨?_, he.2⟩⟩
      rcases List.mem_cons.mp he.1 with rfl | hmem
      · exact absurd he.2 hkey
      · exact hmem

theorem lookup_map_pair (key : Nat) : ∀ entries : List (Entry α),
    (entries.map Entry.pair).lookup key =
      (entries.find? fun e => e.key == key).map Entry.content := by
  intro entries
  induction entries with
  | nil => rfl
  | cons e entries ih =>
    rw [List.map_cons, Entry.pair, List.lookup_cons, List.find?_cons]
    by_cases hkey : e.key = key
    · simp [hkey]
    · have hbeq : (e.key == key) = false := by simp [hkey]
      have hbeq' : (key == e.key) = false := by simp [Ne.symm hkey]
      rw [hbeq, hbeq']
      exact ih

/-- Some entries are those of a cache by last use: the latest in front, and none later than now. -/
structure ByUse (c : RecencyCache α) (entries : List (Entry α)) : Prop where
  perm : entries.Perm c.entries
  keys : entries.Pairwise fun e f => e.key ≠ f.key
  latest : entries.Pairwise fun e f => f.lastUsed < e.lastUsed
  past : ∀ e ∈ entries, e.lastUsed ≤ c.clock

namespace ByUse

variable {c : RecencyCache α}

theorem peek?_eq (h : c.ByUse entries) (key : Nat) :
    c.peek? key = (entries.map Entry.pair).lookup key := by
  have hkeys : c.entries.Pairwise fun e f => e.key ≠ f.key :=
    h.perm.pairwise h.keys fun hne => hne.symm
  have hfind : c.entries.find? (fun e => e.key == key) = entries.find? fun e => e.key == key := by
    ext e
    rw [find?_eq_some_iff hkeys, find?_eq_some_iff h.keys, h.perm.mem_iff]
  rw [peek?, hfind, lookup_map_pair]

theorem contains_eq (h : c.ByUse entries) (key : Nat) :
    c.contains key = ((entries.map Entry.pair).lookup key).isSome := by
  rw [← h.peek?_eq, peek?, Option.isSome_map, contains, Bool.eq_iff_iff, List.any_eq_true,
    List.find?_isSome]

/-- An entry that is used now comes to the front, in place of the one with its key. -/
theorem front (h : c.ByUse entries) (key : Nat) (content : α) (now : List (Entry α))
    (counters : Counters)
    (hnow : now.Perm (⟨key, content, c.clock + 1⟩ :: entries.filter fun e => e.key != key)) :
    ByUse ⟨c.capacity, now, c.clock + 1, counters⟩
      (⟨key, content, c.clock + 1⟩ :: entries.filter fun e => e.key != key) := by
  constructor
  · exact hnow.symm
  · -- No other entry has the key.
    refine List.pairwise_cons.mpr ⟨fun e he => ?_, h.keys.filter _⟩
    have hne : e.key ≠ key := by simpa using (List.mem_filter.mp he).2
    exact hne.symm
  · -- The new stamp is later than all that were given before.
    refine List.pairwise_cons.mpr ⟨fun e he => ?_, h.latest.filter _⟩
    exact Nat.lt_succ_of_le (h.past e (List.mem_filter.mp he).1)
  · intro e he
    rcases List.mem_cons.mp he with rfl | he
    · exact Nat.le_refl _
    · exact Nat.le_succ_of_le (h.past e (List.mem_filter.mp he).1)

end ByUse

/-! ### The oldest entry -/

/-- Some entry is the oldest of a list that is not empty, and none is older. -/
theorem oldest?_spec : ∀ entries : List (Entry α), entries ≠ [] →
    ∃ o, oldest? entries = some o ∧ o ∈ entries ∧ ∀ e ∈ entries, o.lastUsed ≤ e.lastUsed := by
  intro entries
  induction entries with
  | nil => intro h; exact absurd rfl h
  | cons f rest ih =>
    intro _
    rw [oldest?]
    by_cases hrest : rest = []
    · subst hrest
      exact ⟨f, rfl, by simp, by simp⟩
    · obtain ⟨o, ho, hmem, hleast⟩ := ih hrest
      simp only [ho]
      split
      · next hle =>
        -- The first entry is at least as old as the oldest of the rest.
        refine ⟨f, rfl, by simp, fun e he => ?_⟩
        rcases List.mem_cons.mp he with rfl | he
        · exact Nat.le_refl _
        · have := hleast e he; omega
      · next hlt =>
        -- The oldest of the rest is older than the first entry.
        refine ⟨o, rfl, by simp [hmem], fun e he => ?_⟩
        rcases List.mem_cons.mp he with rfl | he
        · omega
        · exact hleast e he

namespace ByUse

variable {c : RecencyCache α}

/-- **The oldest entry is the last one by last use**, in whatever order the entries lie. -/
theorem oldest?_eq (h : c.ByUse entries) : oldest? c.entries = entries.getLast? := by
  rcases List.eq_nil_or_concat entries with rfl | ⟨start, last, rfl⟩
  · have hnil : c.entries = [] := h.perm.nil_eq.symm
    rw [hnil]
    rfl
  · rw [List.concat_eq_append] at h ⊢
    have hlast : last ∈ c.entries := h.perm.mem_iff.mp (by simp)
    obtain ⟨o, ho, hmem, hleast⟩ := oldest?_spec c.entries (List.ne_nil_of_mem hlast)
    rw [ho, List.getLast?_concat]
    rcases List.mem_append.mp (h.perm.mem_iff.mpr hmem) with hstart | hend
    · -- All entries before the last one are later than it.
      have hlt := (List.pairwise_append.mp h.latest).2.2 o hstart last (by simp)
      have hle := hleast last hlast
      omega
    · rw [List.mem_singleton.mp hend]

/-- Without its oldest entry a cache has the entries before the last one. -/
theorem evict (h : c.ByUse entries) (hne : entries ≠ []) : ∃ kept,
    c.evict = { c with entries := kept, counters.evictions := c.counters.evictions + 1 } ∧
      c.evict.ByUse entries.dropLast := by
  rcases List.eq_nil_or_concat entries with rfl | ⟨start, last, rfl⟩
  · exact absurd rfl hne
  · rw [List.concat_eq_append] at h ⊢
    -- Keys are distinct, so dropping the key of the last entry drops that entry alone.
    have hkeep : (start ++ [last]).filter (fun e => e.key != last.key) = start := by
      have hkeys := (List.pairwise_append.mp h.keys).2.2
      rw [List.filter_append, List.filter_eq_self.mpr, List.filter_cons_of_neg, List.filter_nil,
        List.append_nil]
      · simp
      · intro e he
        simpa using hkeys e he last (by simp)
    have hsub : start.Sublist (start ++ [last]) := List.sublist_append_left start [last]
    have hperm := h.perm.filter fun e => e.key != last.key
    rw [hkeep] at hperm
    rw [RecencyCache.evict, h.oldest?_eq, List.getLast?_concat, List.dropLast_concat]
    exact ⟨_, rfl, hperm, h.keys.sublist hsub, h.latest.sublist hsub,
      fun e he => h.past e (hsub.subset he)⟩

end ByUse

/-- The entry that is looked up gets a new stamp, and the others keep theirs. -/
theorem restamp_perm {c : RecencyCache α} (h : c.ByUse entries)
    (hpeek : c.peek? key = some content) :
    (c.entries.map fun e => if e.key == key then ⟨e.key, e.content, c.clock + 1⟩ else e).Perm
      (⟨key, content, c.clock + 1⟩ :: entries.filter fun e => e.key != key) := by
  obtain ⟨e, hfind, rfl⟩ := Option.map_eq_some_iff.mp hpeek
  have hkey : e.key = key := by simpa using List.find?_some hfind
  have hmem : e ∈ entries := h.perm.mem_iff.mpr (List.mem_of_find?_eq_some hfind)
  refine (h.perm.symm.map _).trans ?_
  obtain ⟨before, after, rfl⟩ := List.append_of_mem hmem
  -- The other entries have other keys, so they stay and are all kept.
  have hkeys := List.pairwise_append.mp h.keys
  have hbefore : ∀ f ∈ before, f.key ≠ key := fun f hf => hkey ▸ hkeys.2.2 f hf e (by simp)
  have hafter : ∀ f ∈ after, f.key ≠ key := fun f hf =>
    hkey ▸ ((List.pairwise_cons.mp hkeys.2.1).1 f hf).symm
  have hstay : ∀ {part : List (Entry α)}, (∀ f ∈ part, f.key ≠ key) →
      (part.map fun f => if f.key == key then ⟨f.key, f.content, c.clock + 1⟩ else f) = part ∧
        part.filter (fun f => f.key != key) = part := by
    intro part hpart
    constructor
    · refine (List.map_congr_left (g := id) fun f hf => ?_).trans (List.map_id part)
      simp [hpart f hf]
    · exact List.filter_eq_self.mpr fun f hf => by simp [hpart f hf]
  rw [List.map_append, List.map_cons, List.filter_append, List.filter_cons_of_neg (by simp [hkey]),
    (hstay hbefore).1, (hstay hbefore).2, (hstay hafter).1, (hstay hafter).2, hkey]
  simp only [beq_self_eq_true, if_true]
  exact List.perm_middle

/-! ### Caches that follow lists -/

theorem others_eq {r : RecencyList α} (h : r.entries = entries.map Entry.pair) (key : Nat) :
    r.others key = (entries.filter fun e => e.key != key).map Entry.pair := by
  rw [RecencyList.others, h, List.filter_map]
  rfl

/-- A cache has the capacity, the counters and the entries of a list, stamped by their places. -/
structure Follows (c : RecencyCache α) (r : RecencyList α) : Prop where
  capacity : c.capacity = r.capacity
  counters : c.counters = r.counters
  listed : ∃ entries, c.ByUse entries ∧ r.entries = entries.map Entry.pair
  bounded : c.size ≤ c.capacity

namespace Follows

variable {c : RecencyCache α} {r : RecencyList α}

theorem ofCapacity (capacity : Nat) :
    (RecencyCache.ofCapacity capacity : RecencyCache α).Follows (.ofCapacity capacity) := by
  refine ⟨rfl, rfl, ⟨[], ⟨List.Perm.refl _, List.Pairwise.nil, List.Pairwise.nil, ?_⟩, rfl⟩,
    Nat.zero_le _⟩
  intro e he
  cases he

/-- It does not matter in which order the entries of a cache lie. -/
theorem reorder (h : c.Follows r) {entries : List (Entry α)} (hperm : entries.Perm c.entries) :
    Follows { c with entries := entries } r := by
  obtain ⟨listed, hlisted, hr⟩ := h.listed
  refine ⟨h.capacity, h.counters,
    ⟨listed, ⟨hlisted.perm.trans hperm.symm, hlisted.keys, hlisted.latest, hlisted.past⟩, hr⟩, ?_⟩
  rw [size, hperm.length_eq]
  exact h.bounded

theorem size_eq (h : c.Follows r) : c.size = r.size := by
  obtain ⟨entries, hentries, hr⟩ := h.listed
  rw [size, RecencyList.size, hr, List.length_map, hentries.perm.length_eq]

theorem peek?_eq (h : c.Follows r) (key : Nat) : c.peek? key = r.entries.lookup key := by
  obtain ⟨entries, hentries, hr⟩ := h.listed
  rw [hentries.peek?_eq, hr]

theorem contains_eq (h : c.Follows r) (key : Nat) : c.contains key = r.contains key := by
  obtain ⟨entries, hentries, hr⟩ := h.listed
  rw [hentries.contains_eq, RecencyList.contains, hr]

/-- Looking an entry up moves it to the front. -/
theorem get (h : c.Follows r) (key : Nat) :
    (c.get key).1 = (r.get key).1 ∧ (c.get key).2.Follows (r.get key).2 := by
  have hpeek := h.peek?_eq key
  obtain ⟨entries, hentries, hr⟩ := h.listed
  unfold RecencyCache.get RecencyList.get
  cases hlookup : r.entries.lookup key with
  | none =>
    -- A miss counts, and the clock runs on; the entries stay.
    rw [hlookup] at hpeek
    simp only [hpeek]
    refine ⟨trivial, h.capacity, ?_, ⟨entries, ⟨hentries.perm, hentries.keys, hentries.latest, ?_⟩,
      hr⟩, h.bounded⟩
    · rw [h.counters]
    · exact fun e he => Nat.le_succ_of_le (hentries.past e he)
  | some content =>
    rw [hlookup] at hpeek
    simp only [hpeek]
    -- A hit gets a new stamp, and that puts it in front.
    have hfront := restamp_perm hentries hpeek
    refine ⟨trivial, h.capacity, ?_, ⟨_, hentries.front key content _ _ hfront, ?_⟩, ?_⟩
    · rw [h.counters]
    · rw [List.map_cons, others_eq hr]
      rfl
    · rw [size, List.length_map]
      exact h.bounded

/-- An entry with room for it is put in front of entries with other keys. -/
theorem push {rest : List (Nat × α)} (h : c.ByUse entries) (key : Nat) (content : α)
    (hroom : (entries.filter fun e => e.key != key).length < c.capacity)
    (hrest : rest = (entries.filter fun e => e.key != key).map Entry.pair) :
    Follows ⟨c.capacity, ⟨key, content, c.clock + 1⟩ :: c.entries.filter fun e => e.key != key,
      c.clock + 1, c.counters⟩ ⟨c.capacity, (key, content) :: rest, c.counters⟩ := by
  have hperm := h.perm.filter fun e => e.key != key
  refine ⟨rfl, rfl, ⟨_, h.front key content _ _ (hperm.symm.cons _), ?_⟩, ?_⟩
  · rw [hrest, List.map_cons]
    rfl
  · rw [size, List.length_cons, ← hperm.length_eq]
    exact hroom

/-- Inserting an entry puts it in front, and the last one goes if there is no room for a new key. -/
theorem insert (h : c.Follows r) (key : Nat) (content : α) :
    (c.insert key content).Follows (r.insert key content) := by
  have hsize := h.size_eq
  have hbounded := h.bounded
  obtain ⟨entries, hentries, hr⟩ := h.listed
  have hlength : entries.length = c.size := hentries.perm.length_eq
  unfold RecencyCache.insert RecencyList.insert
  rw [← h.capacity, ← h.counters, ← hsize, ← h.contains_eq]
  by_cases hzero : c.capacity = 0
  · rw [if_pos hzero, if_pos hzero]
    exact h
  rw [if_neg hzero, if_neg hzero]
  by_cases hold : c.contains key
  · -- The key is there, so there is room for it without its entry.
    simp only [hold, Bool.not_true, Bool.and_false, Bool.false_eq_true, if_false, if_true]
    refine push hentries key content ?_ (others_eq hr key)
    obtain ⟨e, he, hkey⟩ := List.any_eq_true.mp hold
    have hlt : (entries.filter fun e => e.key != key).length < entries.length := by
      refine List.length_filter_lt_length_iff_exists.mpr ⟨e, hentries.perm.mem_iff.mpr he, ?_⟩
      simpa using hkey
    omega
  · have hother : ∀ e ∈ entries, (e.key != key) = true := by
      intro e he
      have hne := List.any_eq_false.mp (Bool.eq_false_iff.mpr hold) e (hentries.perm.mem_iff.mp he)
      simpa using hne
    simp only [hold, Bool.not_false, Bool.and_true, decide_eq_true_eq]
    by_cases hroom : c.size < c.capacity
    · rw [if_neg (Nat.not_le_of_lt hroom), if_pos hroom]
      have hall : entries.filter (fun e => e.key != key) = entries := List.filter_eq_self.mpr hother
      exact push hentries key content (by rw [hall]; omega) (by rw [hall, hr])
    · rw [if_pos (Nat.le_of_not_lt hroom), if_neg hroom]
      -- The cache is full, and what is used longest ago makes room.
      have hne : entries ≠ [] := by
        rintro rfl
        rw [List.length_nil] at hlength
        omega
      obtain ⟨kept, hkept, hevicted⟩ := hentries.evict hne
      have hall : entries.dropLast.filter (fun e => e.key != key) = entries.dropLast :=
        List.filter_eq_self.mpr fun e he => hother e (List.dropLast_subset _ he)
      have hrest : r.entries.dropLast =
          (entries.dropLast.filter fun e => e.key != key).map Entry.pair := by
        rw [hall, hr, List.map_dropLast]
      have hfits : (entries.dropLast.filter fun e => e.key != key).length < c.evict.capacity := by
        rw [hall, List.length_dropLast, hkept]
        show entries.length - 1 < c.capacity
        omega
      have hpush := push hevicted key content hfits hrest
      rw [hkept] at hpush ⊢
      exact hpush

theorem getOrInsert (h : c.Follows r) (key : Nat) (content : α) :
    (c.getOrInsert key content).1 = (r.getOrInsert key content).1 ∧
      (c.getOrInsert key content).2.Follows (r.getOrInsert key content).2 := by
  obtain ⟨hanswer, hafter⟩ := h.get key
  unfold RecencyCache.getOrInsert RecencyList.getOrInsert
  obtain ⟨found, c', hc⟩ : ∃ found c', c.get key = (found, c') := ⟨_, _, rfl⟩
  obtain ⟨found', r', hr⟩ : ∃ found r', r.get key = (found, r') := ⟨_, _, rfl⟩
  rw [hc, hr] at hanswer hafter
  obtain rfl : found = found' := hanswer
  rw [hc, hr]
  cases found with
  | some content' => exact ⟨rfl, hafter⟩
  | none => exact ⟨rfl, hafter.insert key content⟩

theorem invalidate (h : c.Follows r) (key : Nat) :
    (c.invalidate key).1 = (r.invalidate key).1 ∧
      (c.invalidate key).2.Follows (r.invalidate key).2 := by
  obtain ⟨entries, hentries, hr⟩ := h.listed
  refine ⟨h.contains_eq key, h.capacity, h.counters,
    ⟨_, ⟨hentries.perm.filter _, hentries.keys.filter _, hentries.latest.filter _,
      fun e he => hentries.past e (List.mem_filter.mp he).1⟩, others_eq hr key⟩, ?_⟩
  exact Nat.le_trans (List.length_filter_le _ _) h.bounded

theorem clear (h : c.Follows r) : c.clear.Follows r.clear := by
  refine ⟨h.capacity, h.counters, ⟨[], ⟨List.Perm.refl _, List.Pairwise.nil, List.Pairwise.nil, ?_⟩,
    rfl⟩, Nat.zero_le _⟩
  intro e he
  cases he

/-- **Whatever is done with a cache that follows a list is seen of the list too**, and it goes on to
follow it. -/
theorem use (h : c.Follows r) (u : Use α) :
    see (c.use u) = RecencyList.see (r.use u) ∧ (c.use u).2.Follows (r.use u).2 := by
  -- What is seen of a use are its answer, the size and the counters; the size and the counters
  -- agree for all caches that follow their lists.
  have hsee : ∀ {answer answer' : Answer α} {c : RecencyCache α} {r : RecencyList α},
      answer = answer' → c.Follows r → see (answer, c) = RecencyList.see (answer', r) := by
    intro answer answer' c r hanswer hafter
    rw [see, RecencyList.see, hanswer, hafter.size_eq, hafter.counters]
  cases u with
  | get key =>
    obtain ⟨hanswer, hafter⟩ := h.get key
    exact ⟨hsee (congrArg Answer.found hanswer) hafter, hafter⟩
  | insert key content => exact ⟨hsee rfl (h.insert key content), h.insert key content⟩
  | getOrInsert key content =>
    obtain ⟨hanswer, hafter⟩ := h.getOrInsert key content
    exact ⟨hsee (by rw [hanswer]) hafter, hafter⟩
  | invalidate key =>
    obtain ⟨hanswer, hafter⟩ := h.invalidate key
    exact ⟨hsee (congrArg Answer.dropped hanswer) hafter, hafter⟩
  | clear => exact ⟨hsee rfl h.clear, h.clear⟩

/-- All that can be seen of a cache that follows a list is what is seen of the list. -/
theorem eq_log_of_logs {us : List (Use α)} {sights : List (Sight α)} (hlogs : c.Logs us sights) :
    ∀ {r : RecencyList α}, c.Follows r → sights = r.log us := by
  induction hlogs with
  | nil c => intro r _; rfl
  | cons reordered _ ih =>
    intro r h
    obtain ⟨hsee, hafter⟩ := (h.reorder reordered).use _
    rw [RecencyList.log, hsee, ih hafter]

/-- What is seen of a cache never exceeds its capacity. -/
theorem size_le_of_mem_log : ∀ {us : List (Use α)} {c : RecencyCache α} {r : RecencyList α},
    c.Follows r → ∀ sight ∈ c.log us, sight.size ≤ r.capacity := by
  intro us
  induction us with
  | nil => intro c r _ sight hsight; cases hsight
  | cons u us ih =>
    intro c r h sight hsight
    obtain ⟨_, hafter⟩ := h.use u
    rw [← r.capacity_use u]
    rcases List.mem_cons.mp hsight with rfl | hsight
    · rw [← hafter.capacity]
      exact hafter.bounded
    · exact ih hafter sight hsight

end Follows

/-- **A cache is seen to do what a list by last use does**: all answers, sizes and counters are the
same, whatever is done and in whatever order the entries of the cache lie each time, and there are
never more entries than the capacity allows. -/
theorem log_ofCapacity (capacity : Nat) (us : List (Use α)) :
    (ofCapacity capacity).log us = (RecencyList.ofCapacity capacity).log us ∧
      (∀ sights, (ofCapacity capacity).Logs us sights ↔
        sights = (RecencyList.ofCapacity capacity).log us) ∧
      ∀ sight ∈ (ofCapacity capacity).log us, sight.size ≤ capacity := by
  have hstart : (ofCapacity capacity : RecencyCache α).Follows (.ofCapacity capacity) :=
    .ofCapacity capacity
  have hlog : (ofCapacity capacity).log us = (RecencyList.ofCapacity capacity).log us :=
    Follows.eq_log_of_logs (logs_log us _) hstart
  refine ⟨hlog, fun sights => ⟨fun hlogs => Follows.eq_log_of_logs hlogs hstart, ?_⟩,
    Follows.size_le_of_mem_log hstart⟩
  rintro rfl
  rw [← hlog]
  exact logs_log us _

/-- The entry that was looked up stays, and the other one makes room. -/
example : ((RecencyList.ofCapacity 2).log
    [.insert 1 'a', .insert 2 'b', .get 1, .insert 3 'c', .get 2, .get 1]).getLast? =
      some ⟨.found (some 'a'), 2, ⟨2, 1, 1⟩⟩ := rfl

end RecencyCache

end QueryPlanner
