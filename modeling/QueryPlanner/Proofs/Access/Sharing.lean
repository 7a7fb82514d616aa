import QueryPlanner.Proofs.Access.Consumption

/-!
# A shared cache cannot be seen

Selectors that work with one catalog can share a cache of candidates.  A plan that is optimized then
depends on the plan and its selector alone: whatever others asked for before, and whatever was
dropped from the cache or had to go since, the plan that comes back is the one that a new cache
gives.  The cache could tell only if one number stood for two indexes.

## Main definitions

* `Selector.Request` — a plan to be optimized, and the selector that it is handed to.
* `Selector.Event` — what can happen to a shared cache.
* `Selector.answers` — the plans that come back, one event after the other.
* `Selector.Request.alone` — the plan that comes back with a new cache.

## Main results

* `Selector.Event.run_of_holds` — one event: the plan is that of a new cache, and what is cached is
  right.
* `Selector.answers_eq_alone` — **all plans that come back are those of new caches**.
-/

namespace QueryPlanner

namespace Selector

/-- A plan to be optimized, with all that selectors over one catalog do not have in common. -/
structure Request where
  settings : SelectionSettings
  costModel : CostModel
  effects : OrderEffects
  expected : Bindings
  plan : Plan

namespace Request

/-- The selector of a request over a catalog. -/
def selector (catalog : Catalog) (r : Request) : Selector :=
  ⟨r.settings, catalog, r.costModel, r.effects⟩

/-- The plan that comes back, and the cache after it. -/
def run (catalog : Catalog) (cache : CandidateCache) (r : Request) : Plan × CandidateCache :=
  (r.selector catalog).optimize r.expected r.plan cache

/-- The plan that comes back with a new cache of some capacity. -/
def alone (catalog : Catalog) (capacity : Nat) (r : Request) : Plan :=
  (r.run catalog (.ofCapacity capacity)).1

end Request

/-- What can happen to a cache that is shared. -/
inductive Event where
  | optimize (request : Request)
  | get (id : Nat)
  | invalidate (id : Nat)
  | clear

namespace Event

/-- The request of an event, if it is one. -/
def request? : Event → Option Request
  | .optimize request => some request
  | _ => none

/-- The plan that comes back, if one was asked for, and the cache after the event. -/
def run (catalog : Catalog) (cache : CandidateCache) : Event → Option Plan × CandidateCache
  | .optimize request => (some (request.run catalog cache).1, (request.run catalog cache).2)
  | .get id => (none, (cache.get id).2)
  | .invalidate id => (none, (cache.invalidate id).2)
  | .clear => (none, cache.clear)

end Event

/-- The plans that come back, one event after the other. -/
def answers (catalog : Catalog) (cache : CandidateCache) : List Event → List (Option Plan)
  | [] => []
  | e :: es => (e.run catalog cache).1 :: answers catalog (e.run catalog cache).2 es

/-! ### One event -/

variable {catalog : Catalog} {U : Set Index}

/-- What is listed depends on the catalog only. -/
theorem lists_congr {s s' : Selector} (h : s.catalog = s'.catalog) (U : Set Index) :
    s.Lists U = s'.Lists U := by
  unfold Lists candidates
  rw [h]

/-- A plan comes back as if candidates were looked up afresh, and what is cached stays right. -/
theorem Request.run_of_holds {s : Selector} {cache : CandidateCache} {r : Request}
    (hids : ∀ i ∈ U, ∀ j ∈ U, i.id = j.id → i = j)
    (hscans : ∀ i, Plan.source (.scan i) ∈ r.plan.subplans → i ∈ U)
    (hcache : cache.Holds (s.Lists U)) :
    (r.run s.catalog cache).1 = (r.selector s.catalog).rewrite r.expected r.plan true ∧
      (r.run s.catalog cache).2.Holds (s.Lists U) := by
  have hlists : s.Lists U = (r.selector s.catalog).Lists U := lists_congr rfl U
  rw [hlists] at hcache ⊢
  exact visit_eq_rewrite hids r.plan true cache hscans hcache

theorem Request.alone_eq_rewrite {r : Request} (hids : ∀ i ∈ U, ∀ j ∈ U, i.id = j.id → i = j)
    (hscans : ∀ i, Plan.source (.scan i) ∈ r.plan.subplans → i ∈ U) (capacity : Nat) :
    r.alone catalog capacity = (r.selector catalog).rewrite r.expected r.plan true :=
  (Request.run_of_holds (s := r.selector catalog) hids hscans (RecencyCache.holds_ofCapacity _ _)).1

/-- **After any event what is cached is right, and a plan that comes back is that of a new cache.**
-/
theorem Event.run_of_holds {s : Selector} {cache : CandidateCache} {e : Event}
    (hids : ∀ i ∈ U, ∀ j ∈ U, i.id = j.id → i = j)
    (hscans : ∀ r, e.request? = some r → ∀ i, Plan.source (.scan i) ∈ r.plan.subplans → i ∈ U)
    (hcache : cache.Holds (s.Lists U)) (capacity : Nat) :
    (e.run s.catalog cache).1 = e.request?.map (Request.alone s.catalog capacity) ∧
      (e.run s.catalog cache).2.Holds (s.Lists U) := by
  cases e with
  | optimize request =>
    obtain ⟨hplan, hafter⟩ := Request.run_of_holds hids (hscans request rfl) hcache
    refine ⟨?_, hafter⟩
    rw [request?, Option.map_some, Request.alone_eq_rewrite hids (hscans request rfl), ← hplan]
    rfl
  | get id => exact ⟨rfl, hcache.get⟩
  | invalidate id => exact ⟨rfl, hcache.invalidate⟩
  | clear => exact ⟨rfl, RecencyCache.holds_clear _ cache⟩

/-! ### All events -/

theorem answers_of_holds {s : Selector} (hids : ∀ i ∈ U, ∀ j ∈ U, i.id = j.id → i = j)
    (capacity : Nat) : ∀ {events : List Event} {cache : CandidateCache},
    (∀ e ∈ events, ∀ r, e.request? = some r →
      ∀ i, Plan.source (.scan i) ∈ r.plan.subplans → i ∈ U) →
    cache.Holds (s.Lists U) → answers s.catalog cache events =
      events.map fun e => e.request?.map (Request.alone s.catalog capacity) := by
  intro events
  induction events with
  | nil => intro cache _ _; rfl
  | cons e es ih =>
    intro cache hscans hcache
    obtain ⟨hplan, hafter⟩ := e.run_of_holds hids (hscans e (by simp)) hcache capacity
    rw [answers, List.map_cons, hplan, ih (fun e' he' => hscans e' (by simp [he'])) hafter]

/-- The plans that are asked for. -/
def plansOf (events : List Event) : List Plan :=
  events.filterMap fun e => e.request?.map Request.plan

/-- **A shared cache cannot be seen.** Whatever selectors over one catalog share a cache of any
capacity, and whatever is looked up in it, dropped from it or has to go, each plan that comes back
is the one that its selector gives with a new cache, as long as the indexes scanned are told apart
by their numbers. -/
theorem answers_eq_alone (catalog : Catalog) (shared fresh : Nat) (events : List Event)
    (hids : IdsApart (plansOf events)) :
    answers catalog (.ofCapacity shared) events =
      events.map fun e => e.request?.map (Request.alone catalog fresh) := by
  let U : Set Index := {i | ∃ p ∈ plansOf events, Plan.source (.scan i) ∈ p.subplans}
  have hU : ∀ i ∈ U, ∀ j ∈ U, i.id = j.id → i = j := by
    rintro i ⟨p, hp, hi⟩ j ⟨q, hq, hj⟩ hid
    exact hids p hp q hq i j hi hj hid
  have hscans : ∀ e ∈ events, ∀ r, e.request? = some r →
      ∀ i, Plan.source (.scan i) ∈ r.plan.subplans → i ∈ U := by
    intro e he r hr i hi
    exact ⟨r.plan, List.mem_filterMap.mpr ⟨e, he, by rw [hr, Option.map_some]⟩, hi⟩
  exact answers_of_holds (s := .ofSettings .default catalog) hU fresh hscans
    (RecencyCache.holds_ofCapacity _ _)

end Selector

/-! ### Two tables and room for one -/

namespace Sample

open Selector (Request Event)

/-- The users with some number, by a selector with settings and a classification of its own. -/
def request (settings : SelectionSettings) (effects : OrderEffects) (id : Nat) : Request :=
  ⟨settings, costModel, effects, .empty, filtered id⟩

/-- The users of the first table, with the usual settings. -/
def firstRequest : Request := request .default .standard 1

/-- The users of the second table, with other settings and another classification. -/
def secondRequest : Request := request ⟨1, 0, .ofNat 2, 10⟩ (fun _ => .breaks) 10

/-- Each table puts the other one out of the cache. -/
def sharedEvents : List Event :=
  [.optimize firstRequest, .optimize firstRequest, .optimize secondRequest, .get 10,
    .optimize firstRequest, .invalidate 1, .optimize secondRequest, .clear, .optimize firstRequest]

/-- Every table of users has an index on ages. -/
def agesCatalog : Catalog := fun primary => [usersByAge primary.id]

/-- The plans that come back are those of new caches, though the second one was found in the cache
and the third one had to make room. -/
theorem answers_eq_alone_sharedEvents :
    Selector.IdsApart (Selector.plansOf sharedEvents) ∧
      (let cache := (firstRequest.run agesCatalog (.ofCapacity 1)).2
        let cache := (firstRequest.run agesCatalog cache).2
        (secondRequest.run agesCatalog cache).2.counters) = ⟨1, 2, 1⟩ ∧
      Selector.answers agesCatalog (.ofCapacity 1) sharedEvents =
        sharedEvents.map fun e => e.request?.map (Request.alone agesCatalog 20) := by
  -- Only two plans are ever asked for, and their tables have different numbers.
  have hplans : ∀ p ∈ Selector.plansOf sharedEvents, p = filtered 1 ∨ p = filtered 10 := by
    intro p hp
    simp only [Selector.plansOf, sharedEvents, firstRequest, secondRequest, request, Event.request?,
      List.filterMap_cons, Option.map_some, Option.map_none, List.filterMap_nil, List.mem_cons,
      List.not_mem_nil, or_false] at hp
    tauto
  have hscans : ∀ p ∈ Selector.plansOf sharedEvents, ∀ i, Plan.source (.scan i) ∈ p.subplans →
      i = users 1 ∨ i = users 10 := by
    intro p hp i hi
    rcases hplans p hp with rfl | rfl
    · exact Or.inl (by simpa [filtered, Plan.subplans] using hi)
    · exact Or.inr (by simpa [filtered, Plan.subplans] using hi)
  have hids : Selector.IdsApart (Selector.plansOf sharedEvents) := by
    intro p hp q hq i j hi hj hid
    rcases hscans p hp i hi with rfl | rfl <;> rcases hscans q hq j hj with rfl | rfl
    · rfl
    · exact absurd hid (by decide)
    · exact absurd hid (by decide)
    · rfl
  exact ⟨hids, by decide, Selector.answers_eq_alone agesCatalog 1 20 sharedEvents hids⟩

end Sample

end QueryPlanner
