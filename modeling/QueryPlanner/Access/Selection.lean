import QueryPlanner.Access.Path
import QueryPlanner.Access.RecencyCache
import QueryPlanner.Plan.OrderEffect

/-!
# Index selection

A filter right above the scan of a primary index is replaced by the cheapest access path, if one is
cheaper than scanning and filtering. The path goes through the primary index or a secondary index
with the same rows; where the order can be seen, rows that come in another order are sorted by the
primary key.

* `Catalog` — the secondary indexes of a primary one.
* `Selector` — settings, catalog, cost model and classification of operators.
* `Selector.optimize` — a plan with the filters replaced; the indexes looked up are cached.
-/

namespace QueryPlanner

/-- The indexes over the rows of a primary index, other than itself. -/
abbrev Catalog := Index → List Index

/-- The catalog that lists secondary indexes by the number of their primary one. -/
def Catalog.ofList (entries : List (Nat × Index)) : Catalog := fun primary =>
  (entries.filter fun e => e.1 == primary.id).map Prod.snd

/-- Settings of index selection. -/
structure SelectionSettings where
  /-- The clauses that a predicate may be split into. -/
  clauseBudget : Nat
  /-- The primary indexes whose candidates are cached. -/
  cacheCapacity : Nat
  /-- The extra cost of each seek into a secondary index. -/
  seekPenalty : Double
  /-- The rows assumed in an index that does not say. -/
  defaultRowCount : Nat
  deriving DecidableEq

namespace SelectionSettings

/-- The settings that are used unless others are given. -/
def default : SelectionSettings := ⟨100, 20, .ofNat 1, 1000⟩

/-- The usual settings stand for all. -/
instance : Inhabited SelectionSettings := ⟨default⟩

/-- The guess about indexes that the settings make. -/
def guess (s : SelectionSettings) : Guess := ⟨s.defaultRowCount, s.seekPenalty⟩

end SelectionSettings

/-- Cached candidates of primary indexes. -/
abbrev CandidateCache := RecencyCache (List Index)

/-- Chooses indexes. -/
structure Selector where
  settings : SelectionSettings
  catalog : Catalog
  costModel : CostModel
  effects : OrderEffects

namespace Selector

/-- The selector with the built-in costs and the usual classification. -/
def ofSettings (settings : SelectionSettings) (catalog : Catalog) : Selector :=
  ⟨settings, catalog, settings.guess.cost, .standard⟩

/-- The cache that a selector begins with. -/
def newCache (s : Selector) : CandidateCache := .ofCapacity s.settings.cacheCapacity

/-- The indexes that can take the place of a primary one: itself, and secondary ones with the same
layout and all data. -/
def candidates (s : Selector) (primary : Index) : List Index :=
  primary :: (s.catalog primary).filter fun i =>
    i.id != primary.id && !i.isPrimary && i.containsAllData && i.columns == primary.columns

/-- The cheapest way to read the rows of a predicate through some indexes. A predicate is split into
clauses only if rows of the table are distinct. -/
def choose? (s : Selector) (expected : Bindings) (indexes : List Index) (primary : Index)
    (predicate : Expr) : Option AccessChoice :=
  let single := (AccessPath.best? s.costModel expected indexes predicate.conjuncts).map .single
  match Dnf.normalize predicate s.settings.clauseBudget with
  | .error _ => single
  | .ok dnf =>
    if 1 < dnf.clauses.length && primary.isUnique then
      match single, AccessChoice.ofClauses? s.costModel expected indexes dnf.clauses with
      | single, none => single
      | none, some union => some union
      | some best, some union => if union.total.before best.total then some union else some best
    else single

/-- The plan in place of a filter over the scan of a primary index, if one is cheaper. -/
def replaceFilter? (s : Selector) (expected : Bindings) (indexes : List Index) (primary : Index)
    (predicate : Expr) (isObserved : Bool) : Option Plan := do
  let baseline := (s.costModel primary .full).withFilter
  let choice ← s.choose? expected indexes primary predicate
  if choice.total.before baseline.total then
    if isObserved && !choice.keepsOrder primary then some (.unary (.sort primary.key) choice.toPlan)
    else some choice.toPlan
  else none

/-- Whether the order of the inputs of an operator can be seen, if its own can. -/
def observes (s : Selector) (isObserved : Bool) (p : Plan) : Bool :=
  isObserved && s.effects p ≠ .sorts && s.effects p ≠ .breaks

/-- Replaces the filters of a plan; `isObserved` tells whether the order of its rows can be seen. -/
def visit (s : Selector) (expected : Bindings) :
    Plan → Bool → CandidateCache → Plan × CandidateCache
  | .source leaf, _, cache => (.source leaf, cache)
  | .unary (.filter predicate) (.source (.scan primary)), isObserved, cache =>
    let unchanged := Plan.unary (.filter predicate) (.source (.scan primary))
    if primary.isPrimary then
      let ((_, indexes), cache) := cache.getOrInsert primary.id (s.candidates primary)
      ((s.replaceFilter? expected indexes primary predicate isObserved).getD unchanged, cache)
    else (unchanged, cache)
  | .unary op input, isObserved, cache =>
    let (input', cache) := s.visit expected input (s.observes isObserved (.unary op input)) cache
    (.unary op input', cache)
  | .binary op left right, isObserved, cache =>
    let isObserved := s.observes isObserved (.binary op left right)
    let (left', cache) := s.visit expected left isObserved cache
    let (right', cache) := s.visit expected right isObserved cache
    (.binary op left' right', cache)

/-- The plan with filters over primary scans replaced where an access path is cheaper. Costs assume
the expected bindings; the plan is right for any. -/
def optimize (s : Selector) (expected : Bindings) (p : Plan) (cache : CandidateCache) :
    Plan × CandidateCache :=
  s.visit expected p true cache

end Selector

end QueryPlanner
