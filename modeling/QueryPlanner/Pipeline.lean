import QueryPlanner.Access.Selection
import QueryPlanner.Ordering
import QueryPlanner.Paging.Collapse

/-!
# Preparing plans

A plan is prepared for execution in three steps: its order is corrected, its paging is collapsed,
and indexes are selected. Each step can be left out, and the last one needs a selector.
-/

namespace QueryPlanner

/-- Which steps are taken, and how. -/
structure PipelineSettings where
  paging : PagingSupport
  selection : SelectionSettings
  correctsOrder : Bool
  collapsesPaging : Bool
  selectsIndexes : Bool
  deriving DecidableEq

namespace PipelineSettings

/-- All steps, for a dialect with paging of its own. -/
def default : PipelineSettings := ⟨.both, .default, true, true, true⟩

/-- The usual settings stand for all. -/
instance : Inhabited PipelineSettings := ⟨default⟩

end PipelineSettings

/-- The steps that prepare a plan. -/
structure Pipeline where
  settings : PipelineSettings
  effects : OrderEffects
  selector : Option Selector

namespace Pipeline

/-- The pipeline with the usual classification and no selector. -/
def ofSettings (settings : PipelineSettings) : Pipeline := ⟨settings, .standard, none⟩

/-- The pipeline with another classification of operators, which its selector takes over. -/
def withEffects (p : Pipeline) (effects : OrderEffects) : Pipeline :=
  { p with effects := effects, selector := p.selector.map fun s => { s with effects := effects } }

/-- The pipeline with a selector, which takes over the classification of operators. -/
def withSelector (p : Pipeline) (selector : Selector) : Pipeline :=
  { p with selector := some { selector with effects := p.effects } }

/-- The pipeline with a selector over a catalog, by its own settings. -/
def withCatalog (p : Pipeline) (catalog : Catalog) : Pipeline :=
  p.withSelector (.ofSettings p.settings.selection catalog)

/-- The plan with its order corrected, if that step is taken. -/
def correct (p : Pipeline) (plan : Plan) : Except Fault Plan :=
  if p.settings.correctsOrder then plan.correctOrder p.effects else .ok plan

/-- The plan with its paging collapsed, if that step is taken. -/
def collapse (p : Pipeline) (plan : Plan) : Plan :=
  if p.settings.collapsesPaging then plan.collapsePaging p.settings.paging else plan

/-- The plan with indexes selected, if that step is taken and there is a selector. -/
def select (p : Pipeline) (expected : Bindings) (plan : Plan) (cache : CandidateCache) :
    Plan × CandidateCache :=
  match p.selector with
  | some selector =>
    if p.settings.selectsIndexes then selector.optimize expected plan cache else (plan, cache)
  | none => (plan, cache)

/-- The prepared plan, and the candidates cached on the way. -/
def process (p : Pipeline) (expected : Bindings) (plan : Plan) (cache : CandidateCache) :
    Except Fault (Plan × CandidateCache) := do
  return p.select expected (p.collapse (← p.correct plan)) cache

end Pipeline

end QueryPlanner
