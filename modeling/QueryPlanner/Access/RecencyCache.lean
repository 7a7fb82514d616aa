import QueryPlanner.Numeric.Double

/-!
# A cache that forgets what was used longest ago

Entries are found by number and stamped with the time of their last use. When a new entry finds the
cache full, the one with the oldest stamp goes. Stamps and counts are plain numbers: a cache is used
fewer than `2 ^ 64` times, so that words of 64 bits would not wrap around either.

* `RecencyCache.get`, `RecencyCache.insert`, `RecencyCache.getOrInsert` — use of an entry.
* `RecencyCache.invalidate`, `RecencyCache.clear` — dropping entries.
* `RecencyCache.Counters` — how often a lookup succeeded or failed and how often an entry had to go.
-/

namespace QueryPlanner

namespace RecencyCache

/-- An entry and the time of its last use. -/
structure Entry (α : Type) where
  /-- The number by which the entry is found. -/
  key : Nat
  /-- What the entry holds. -/
  content : α
  /-- The time of the last use, below `2 ^ 64`. -/
  lastUsed : Nat
  deriving Inhabited

/-- What has happened to a cache, each less than `2 ^ 64` times. -/
structure Counters where
  /-- Lookups that found an entry. -/
  hits : Nat
  /-- Lookups that found none. -/
  misses : Nat
  /-- Entries dropped to make room for another. -/
  evictions : Nat
  deriving DecidableEq, Inhabited

/-- The share of lookups that succeeded, zero before the first. -/
def Counters.hitRate (c : Counters) : Double :=
  if c.hits + c.misses = 0 then .zero
  else (Double.ofNat c.hits).div (.ofNat (c.hits + c.misses))

end RecencyCache

open RecencyCache in
/-- A cache of bounded size. -/
structure RecencyCache (α : Type) where
  /-- How many entries there is room for. -/
  capacity : Nat
  /-- The entries, each under its own number. -/
  entries : List (Entry α)
  /-- The time, counted in uses and below `2 ^ 64`. -/
  clock : Nat
  /-- What has happened so far. -/
  counters : Counters
  deriving Inhabited

namespace RecencyCache

variable {α : Type}

/-- A new cache for at most so many entries. -/
def ofCapacity (capacity : Nat) : RecencyCache α := ⟨capacity, [], 0, ⟨0, 0, 0⟩⟩

/-- The capacity of a cache for which none is given. -/
def defaultCapacity : Nat := 20

/-- How many entries there are. -/
def size (c : RecencyCache α) : Nat := c.entries.length

/-- Whether there are no entries. -/
def isEmpty (c : RecencyCache α) : Bool := c.entries.isEmpty

/-- The content of an entry; the cache stays as it is. -/
def peek? (c : RecencyCache α) (key : Nat) : Option α :=
  (c.entries.find? fun e => e.key == key).map Entry.content

/-- Whether there is an entry under a number. -/
def contains (c : RecencyCache α) (key : Nat) : Bool := c.entries.any fun e => e.key == key

/-- Looks an entry up and marks it as used. -/
def get (c : RecencyCache α) (key : Nat) : Option α × RecencyCache α :=
  let now := c.clock + 1
  match c.peek? key with
  | some content =>
    let entries := c.entries.map fun e => if e.key == key then ⟨e.key, e.content, now⟩ else e
    (some content, ⟨c.capacity, entries, now, { c.counters with hits := c.counters.hits + 1 }⟩)
  | none => (none, { c with clock := now, counters.misses := c.counters.misses + 1 })

/-- Of several entries, the one used longest ago. -/
def oldest? : List (Entry α) → Option (Entry α)
  | [] => none
  | e :: rest =>
    match oldest? rest with
    | none => some e
    | some o => if e.lastUsed ≤ o.lastUsed then some e else some o

/-- Drops the entry used longest ago. -/
def evict (c : RecencyCache α) : RecencyCache α :=
  match oldest? c.entries with
  | none => c
  | some o =>
    { c with
      entries := c.entries.filter fun e => e.key != o.key
      counters.evictions := c.counters.evictions + 1 }

/-- Adds or replaces an entry, dropping the one used longest ago if there is no room. A cache
without any room stays as it is. -/
def insert (c : RecencyCache α) (key : Nat) (content : α) : RecencyCache α :=
  if c.capacity = 0 then c
  else
    let now := c.clock + 1
    let c := if c.capacity ≤ c.size && !c.contains key then c.evict else c
    { c with
      entries := ⟨key, content, now⟩ :: c.entries.filter fun e => e.key != key
      clock := now }

/-- The content of an entry, which is inserted if there is none; also tells whether it was
inserted. -/
def getOrInsert (c : RecencyCache α) (key : Nat) (content : α) : (Bool × α) × RecencyCache α :=
  match c.get key with
  | (some found, c) => ((false, found), c)
  | (none, c) => ((true, content), c.insert key content)

/-- Drops an entry; also tells whether there was one. -/
def invalidate (c : RecencyCache α) (key : Nat) : Bool × RecencyCache α :=
  (c.contains key, { c with entries := c.entries.filter fun e => e.key != key })

/-- Drops every entry. -/
def clear (c : RecencyCache α) : RecencyCache α := { c with entries := [] }

/-- The cache as text: its capacity and its size. -/
def toText (c : RecencyCache α) : String :=
  s!"IndexMetadataCache \x7b capacity: {c.capacity}, len: {c.size} \x7d"

end RecencyCache

end QueryPlanner
