import QueryPlanner.Paging.Window

/-!
# Collapsing paging

A chain of skips, takes and pages becomes one window, applied in a single step. Where a dialect has
no such step, the rows are numbered first and the number is dropped again afterwards.

* `PagingSupport` — what a dialect can do by itself.
* `Plan.collapsePaging` — a plan with every chain collapsed.
-/

namespace QueryPlanner

/-- Which steps of paging a dialect has. -/
structure PagingSupport where
  take : Bool
  skip : Bool
  deriving DecidableEq, Inhabited

namespace PagingSupport

/-- Both steps. -/
def both : PagingSupport := ⟨true, true⟩

/-- Neither step. -/
def neither : PagingSupport := ⟨false, false⟩

/-- Whether a window that skips or takes needs no row numbers. -/
def supports (s : PagingSupport) (skips takes : Bool) : Bool :=
  (!skips || s.skip) && (!takes || s.take)

end PagingSupport

/-- A name that no column of the header has: the base, or the base with the first free number. One
of as many numbers as there are columns is free whenever the base itself is taken. -/
def Header.freshName (h : Header) (base : String) : String :=
  let names := base :: (List.range (h.width + 1)).map fun i => base ++ toString i
  (names.find? fun name => (h.indexOf? name).isNone).getD base

/-- The column that numbers rows. -/
def rowNumberName : String := "RowNumber"

/-- The plan that applies a window with the steps a dialect has. -/
def Window.applyWith (support : PagingSupport) (w : Window) (p : Plan) : Plan :=
  if w.isUnbounded then p
  else if support.supports (0 < w.skipped) w.taken.isSome then w.apply p
  else
    let numbered := Plan.unary (.number (p.header.freshName rowNumberName)) p
    .unary (.select (List.range p.header.width)) (w.apply numbered)

namespace Plan

/-- The window of the paging chain at the top of a plan, and the collapsed plan below the chain. -/
def peelPaging (support : PagingSupport) : Plan → Window × Plan
  | .source s => (.unbounded, .source s)
  | .unary (.skip n) input =>
    let (w, base) := input.peelPaging support
    (w.skip n, base)
  | .unary (.take n) input =>
    let (w, base) := input.peelPaging support
    (w.take n, base)
  | .unary (.page s t) input =>
    let (w, base) := input.peelPaging support
    ((w.skip s).take t, base)
  | .unary op input =>
    let (w, base) := input.peelPaging support
    (.unbounded, .unary op (w.applyWith support base))
  | .binary op left right =>
    let (w, l) := left.peelPaging support
    let (w', r) := right.peelPaging support
    (.unbounded, .binary op (w.applyWith support l) (w'.applyWith support r))

/-- The plan with every paging chain collapsed into one window. -/
def collapsePaging (support : PagingSupport) (p : Plan) : Plan :=
  let (w, base) := p.peelPaging support
  w.applyWith support base

end Plan

end QueryPlanner
