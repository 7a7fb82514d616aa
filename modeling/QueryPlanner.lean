import QueryPlanner.Access.Cost
import QueryPlanner.Access.Path
import QueryPlanner.Access.RecencyCache
import QueryPlanner.Access.Selection
import QueryPlanner.Data.Basic
import QueryPlanner.Data.Json
import QueryPlanner.Data.PlanForm
import QueryPlanner.Data.SettingsForm
import QueryPlanner.Data.TemplateForm
import QueryPlanner.Data.ValueForm
import QueryPlanner.Expr.Basic
import QueryPlanner.Expr.Dnf
import QueryPlanner.Expr.Eval
import QueryPlanner.Expr.Junction
import QueryPlanner.Fault
import QueryPlanner.Key.Bound
import QueryPlanner.Key.Condition
import QueryPlanner.Key.Extraction
import QueryPlanner.Key.Interval
import QueryPlanner.Key.IntervalSet
import QueryPlanner.Numeric.Double
import QueryPlanner.Numeric.Shortest
import QueryPlanner.Ordering
import QueryPlanner.Paging.Collapse
import QueryPlanner.Paging.Window
import QueryPlanner.Pipeline
import QueryPlanner.Plan.Basic
import QueryPlanner.Plan.Header
import QueryPlanner.Plan.Index
import QueryPlanner.Plan.JoinChain
import QueryPlanner.Plan.OrderEffect
import QueryPlanner.Plan.Outline
import QueryPlanner.Plan.SortOrder
import QueryPlanner.Proofs.Computation
import QueryPlanner.Proofs.Key.Order
import QueryPlanner.Proofs.Key.Sets
import QueryPlanner.Run.Operators
import QueryPlanner.Run.Plan
import QueryPlanner.Run.Store
import QueryPlanner.Template.Compaction
import QueryPlanner.Template.Directive
import QueryPlanner.Template.Error
import QueryPlanner.Template.Node
import QueryPlanner.Template.Parser
import QueryPlanner.Template.Render
import QueryPlanner.Template.Settings
import QueryPlanner.Template.Span
import QueryPlanner.Template.Token
import QueryPlanner.Text.CodeRange
import QueryPlanner.Text.Combining
import QueryPlanner.Text.Quoted
import QueryPlanner.Text.Unprinted
import QueryPlanner.Value
import QueryPlanner.Proofs.Key.Prefix
import QueryPlanner.Proofs.Key.Conditions
import QueryPlanner.Proofs.Expr.Evaluation
import QueryPlanner.Proofs.Key.Extraction
import QueryPlanner.Proofs.Expr.Clauses
import QueryPlanner.Proofs.Plan.RowOrder
import QueryPlanner.Proofs.Access.Paths
import QueryPlanner.Proofs.Access.Replacement
import QueryPlanner.Proofs.Run.Contexts
import QueryPlanner.Proofs.Access.Caching
import QueryPlanner.Proofs.Access.Selection
import QueryPlanner.Proofs.Access.Consumption
import QueryPlanner.Proofs.Plan.SortedRows
import QueryPlanner.Proofs.Run.Sorting
import QueryPlanner.Proofs.Run.Grouping
import QueryPlanner.Proofs.Ordering.Arrangement
import QueryPlanner.Proofs.Ordering.Correction
import QueryPlanner.Proofs.Key.Algebra
import QueryPlanner.Proofs.Run.Widths
import QueryPlanner.Proofs.Paging.Collapse
import QueryPlanner.Proofs.Ordering.Delivery
import QueryPlanner.Proofs.Run.Linear
import QueryPlanner.Proofs.Pipeline.Corrected
import QueryPlanner.Proofs.Pipeline.Process
import QueryPlanner.Proofs.Template.Layout
import QueryPlanner.Proofs.Template.Scoping
import QueryPlanner.Proofs.Template.Tokens
import QueryPlanner.Proofs.Template.Printing
import QueryPlanner.Proofs.Access.Recency
import QueryPlanner.Proofs.Access.Sharing
import QueryPlanner.Proofs.Run.Headers
import QueryPlanner.Proofs.Expr.NormalForm
import QueryPlanner.Proofs.Access.Unbound
import QueryPlanner.Proofs.Access.Unordered
import QueryPlanner.Proofs.Ordering.Frame
import QueryPlanner.Proofs.Ordering.IdleSorts
import QueryPlanner.Proofs.Paging.FreshNames
import QueryPlanner.Proofs.Paging.NormalForm
import QueryPlanner.Proofs.Access.Shapes
import QueryPlanner.Proofs.Key.Canonical
import QueryPlanner.Proofs.Key.Widening
import QueryPlanner.Proofs.Template.Compacted
import QueryPlanner.Proofs.Template.Names
import QueryPlanner.Proofs.Expr.Junctions
import QueryPlanner.Proofs.Key.TotalOrder
import QueryPlanner.Proofs.Run.JoinChains
import QueryPlanner.Proofs.Template.Spans
import QueryPlanner.Proofs.Template.Bytes
