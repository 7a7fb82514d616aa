import QueryPlanner.Proofs.Template.Layout
import QueryPlanner.Proofs.Template.Readers
import QueryPlanner.Template.Parser

/-!
# Items of templates stand in cycles

The reader of directives refuses an item unless it stands in the body of a cycle, and the renderer
fails on an item unless there is a current row.  The first is a flag passed down while a template is
read, the second a row passed down while it is rendered; the two agree on every template that was
read, because a body is rendered with a row exactly where it is read with the flag.  The empty case
of a cycle has neither of its own and takes both from around the cycle.

## Main definitions

* `Node.isScoped` — items occur only inside bodies of cycles.
* `Nested.KeepsScope` — a reader of nested templates that puts items into cycles only.

## Main results

* `areScoped_of_parse` — a template that was read has its items in cycles.
* `Node.renderAll_ne_itemOutsideCycle` — such a template never lacks a row.
* `renderNodes_ne_itemOutsideCycle_of_parse` — **templates that were read are rendered in scope**,
  compacted or not.
-/

namespace QueryPlanner

namespace Template

namespace Node

mutual

/-- Whether items occur only inside bodies of cycles; `inCycle` tells whether the node stands in
one. -/
def isScoped (inCycle : Bool) : Node → Bool
  | .text _ => true
  | .container children _ => areScoped inCycle children
  | .variant _ main alternative => areScoped inCycle main && areScoped inCycle alternative
  | .placeholder _ _ => true
  | .cycle _ body _ emptyCase => areScoped true body && areScoped inCycle emptyCase
  | .item _ => inCycle
  | .delimiter _ _ => true

/-- Whether items of several nodes occur only inside bodies of cycles. -/
def areScoped (inCycle : Bool) : List Node → Bool
  | [] => true
  | n :: ns => isScoped inCycle n && areScoped inCycle ns

end

theorem areScoped_append (inCycle : Bool) (ns ms : List Node) :
    areScoped inCycle (ns ++ ms) = (areScoped inCycle ns && areScoped inCycle ms) := by
  induction ns with
  | nil => simp [areScoped]
  | cons n ns ih => simp [areScoped, ih, Bool.and_assoc]

end Node

/-! ### Reading -/

/-- A reader of nested templates that puts items into cycles only. -/
def Nested.KeepsScope (nested : Nested) : Prop :=
  ∀ base inCycle cs nodes, nested base inCycle cs = .ok nodes → Node.areScoped inCycle nodes

namespace Directive

open TokenReader

variable {nested : Nested} (hnested : nested.KeepsScope) (inCycle : Bool)

include hnested

theorem yields_template :
    Yields (fun nodes => Node.areScoped inCycle nodes) (template nested inCycle) :=
  yields_then fun _ => yields_lift fun nodes hnodes => hnested _ _ _ nodes hnodes

theorem yields_arguments (span : Span) (head : Located String) :
    Yields (fun node => node.isScoped inCycle) (arguments nested span inCycle head) := by
  unfold arguments
  split
  · exact yields_then fun q => yields_pure rfl
  · refine yields_then fun id => yields_then fun _ => ?_
    refine yields_bind (yields_template hnested inCycle) fun main hmain => yields_then fun _ => ?_
    refine yields_bind (yields_template hnested inCycle) fun alternative halternative => ?_
    exact yields_pure (by simp [Node.isScoped, hmain, halternative])
  · refine yields_then fun id => yields_then fun _ => ?_
    -- The body of a cycle is inside it, and its empty case is where the cycle is.
    refine yields_bind (yields_template hnested true) fun body hbody => yields_then fun _ => ?_
    refine yields_then fun delimiter => yields_then fun following => ?_
    split
    · refine yields_then fun _ => ?_
      refine yields_bind (yields_template hnested inCycle) fun emptyCase hempty => ?_
      exact yields_pure (by simp [Node.isScoped, hbody, hempty])
    · exact yields_pure (by simp [Node.isScoped, hbody, Node.areScoped])
  · refine yields_then fun index => ?_
    -- An item outside of a cycle is refused here.
    split
    · next h => exact yields_pure h
    · exact yields_throw _
  · refine yields_bind (yields_template hnested inCycle) fun children hchildren => ?_
    exact yields_pure hchildren
  · exact yields_then fun _ => yields_pure rfl
  · exact yields_then fun _ => yields_pure rfl
  · exact yields_throw _

theorem yields_directive (span : Span) :
    Yields (fun node => node.isScoped inCycle) (directive nested span inCycle) := by
  refine yields_then fun head => yields_then fun following => ?_
  split
  · exact yields_then fun _ => yields_pure rfl
  · refine yields_then fun _ => ?_
    refine yields_bind (yields_arguments hnested inCycle span head) fun node hnode => ?_
    exact yields_then fun _ => yields_pure hnode

theorem isScoped_of_parse {extent : Token.Extent} {span : Span} {content : List Char} {node : Node}
    (h : parse extent nested span inCycle content = .ok node) : node.isScoped inCycle := by
  simp only [parse] at h
  split at h
  · cases h
  · obtain ⟨⟨node', s'⟩, hrun, heq⟩ := bind_eq_ok_iff.mp h
    obtain rfl := Except.ok.inj heq
    exact yields_directive hnested inCycle span _ node' s' hrun

end Directive

theorem areScoped_literalNodes (inCycle : Bool) (literal : List Char) :
    Node.areScoped inCycle (literalNodes literal) := by
  unfold literalNodes
  split <;> rfl

/-- Reading a template keeps items in cycles if reading the nested ones does. -/
theorem areScoped_of_parseRest {extent : Token.Extent} {nested : Nested}
    (hnested : nested.KeepsScope) {inCycle : Bool} {base : Nat} {literal cs : List Char}
    {nodes : List Node} (h : parseRest extent nested inCycle base literal cs = .ok nodes) :
    Node.areScoped inCycle nodes := by
  fun_induction parseRest extent nested inCycle base literal cs generalizing nodes with
  | case1 =>
    obtain rfl := Except.ok.inj h
    exact areScoped_literalNodes inCycle _
  | case2 _ _ _ ih => exact ih h
  | case3 _ _ _ ih => exact ih h
  | case4 => cases h
  | case5 => cases h
  | case6 base literal rest _ content after _ stop =>
    rename_i ih
    obtain ⟨node, hnode, h⟩ := bind_eq_ok_iff.mp h
    obtain ⟨others, hothers, h⟩ := bind_eq_ok_iff.mp h
    obtain rfl := Except.ok.inj h
    -- The literal text before, the directive, and what follows it.
    rw [Node.areScoped_append, Node.areScoped, areScoped_literalNodes,
      Directive.isScoped_of_parse hnested inCycle hnode, ih hothers]
    rfl
  | case7 _ _ _ _ _ _ _ _ ih => exact ih h

theorem keepsScope_parseWithin (extent : Token.Extent) (depth : Nat) :
    (parseWithin extent depth).KeepsScope := by
  induction depth with
  | zero =>
    intro _ _ _ _ h
    obtain rfl := Except.ok.inj h
    rfl
  | succ depth ih =>
    intro _ _ _ _ h
    exact areScoped_of_parseRest ih h

/-- **A template that was read has its items in cycles.** -/
theorem areScoped_of_parse {source : String} {nodes : List Node} (h : parse source = .ok nodes) :
    Node.areScoped false nodes :=
  keepsScope_parseWithin _ _ _ _ _ _ h

/-! ### Rendering -/

/-- A repetition fails where it fails on one of the rows. -/
theorem exists_error_of_mapM {f : List String → Except RenderError String}
    {rows : List (List String)} {e : RenderError} (h : rows.mapM f = .error e) :
    ∃ current, f current = .error e := by
  induction rows with
  | nil => cases h
  | cons current rows ih =>
    rw [List.mapM_cons] at h
    rcases bind_eq_error_iff.mp h with hfirst | ⟨text, -, h⟩
    · exact ⟨current, hfirst⟩
    · rcases bind_eq_error_iff.mp h with hrest | ⟨texts, -, h⟩
      · exact ih hrest
      · cases h

namespace Node

mutual

/-- **An item in scope finds a row.** -/
theorem render_ne_itemOutsideCycle (s : Settings) (index : Nat) : ∀ (n : Node)
    (row : Option (List String)), n.isScoped row.isSome →
    render s row n ≠ .error (.itemOutsideCycle index)
  | .text literal, _, _ => by simp [render]
  | .container children _, row, h => renderAll_ne_itemOutsideCycle s index children row h
  | .variant id main alternative, row, h => by
    simp only [isScoped, Bool.and_eq_true] at h
    rw [render]
    split
    · exact renderAll_ne_itemOutsideCycle s index alternative row h.2
    · exact renderAll_ne_itemOutsideCycle s index main row h.1
  | .placeholder id name, _, _ => by
    cases name with
    | none => cases hp : s.placeholders.lookup id <;> simp [render, renderPlaceholder, hp]
    | some name =>
      cases hd : s.databases <;> cases hs : s.schemas <;> simp [render, renderPlaceholder, hd, hs]
  | .cycle id body separator emptyCase, row, h => by
    simp only [isScoped, Bool.and_eq_true] at h
    rw [render]
    cases s.cycles.lookup id with
    | none => simp
    | some rows =>
      -- The body gets a row of its own, and the empty case the one from around the cycle, if any.
      cases rows with
      | nil => exact renderAll_ne_itemOutsideCycle s index emptyCase row h.2
      | cons first rest =>
        intro hfail
        rcases bind_eq_error_iff.mp hfail with hrows | ⟨texts, -, hjoin⟩
        · obtain ⟨current, hcurrent⟩ := exists_error_of_mapM hrows
          exact renderAll_ne_itemOutsideCycle s index body (some current) h.1 hcurrent
        · cases hjoin
  | .item i, row, h => by
    obtain ⟨values, rfl⟩ := Option.isSome_iff_exists.mp h
    cases hv : values[i]? <;> simp [render, renderItem, hv]
  | .delimiter literal kind, _, _ => by cases kind <;> simp [render]

theorem renderAll_ne_itemOutsideCycle (s : Settings) (index : Nat) : ∀ (ns : List Node)
    (row : Option (List String)), areScoped row.isSome ns →
    renderAll s row ns ≠ .error (.itemOutsideCycle index)
  | [], _, _ => by simp [renderAll]
  | n :: ns, row, h => by
    simp only [areScoped, Bool.and_eq_true] at h
    intro hfail
    rcases bind_eq_error_iff.mp hfail with hfirst | ⟨text, -, hrest⟩
    · exact render_ne_itemOutsideCycle s index n row h.1 hfirst
    · rcases bind_eq_error_iff.mp hrest with hrest | ⟨texts, -, hjoin⟩
      · exact renderAll_ne_itemOutsideCycle s index ns row h.2 hrest
      · cases hjoin

end

end Node

/-- **Templates that were read are rendered in scope.**  Whatever the settings are, neither the
nodes nor their compacted form, with any width of indentation, fail for an item without a current
row. -/
theorem renderNodes_ne_itemOutsideCycle_of_parse (source : String) (nodes : List Node)
    (h : parse source = .ok nodes) (s : Settings) (index : Nat) :
    renderNodes s nodes ≠ .error (.itemOutsideCycle index) ∧
      ∀ width, (compile width nodes).render s ≠ .error (.itemOutsideCycle index) := by
  have hraw : renderNodes s nodes ≠ .error (.itemOutsideCycle index) :=
    Node.renderAll_ne_itemOutsideCycle s index nodes none (areScoped_of_parse h)
  refine ⟨hraw, fun width hfail => ?_⟩
  -- Compaction keeps errors whatever is seen of the texts, so nothing need be.
  have halike : Alike (fun _ => false) _ _ := alike_compile s width nodes (Or.inl ⟨rfl, rfl⟩)
  exact hraw ((halike.eq_error_iff _).mp hfail)

set_option maxRecDepth 10000 in
/-- The empty case of an inner cycle shows a value of the outer one's row. -/
theorem renderNodes_ne_itemOutsideCycle_cells :
    let source :=
      "\x7bcycle:rows,\"\x7bitem:0\x7d\x7bcycle:cells,\\\"\x7bitem:1\x7d\\\",\\\",\\\"," ++
        "\\\"\x7bitem:1\x7d\\\"\x7d\",\";\"\x7d"
    let nodes : List Node :=
      [.cycle "rows" [.item 0, .cycle "cells" [.item 1] "," [.item 1]] ";" []]
    let s := (Settings.empty.withCycle "rows" [["a", "b"]]).withCycle "cells" []
    parse source = .ok nodes ∧ renderNodes s nodes = .ok "ab" ∧
      renderNodes s nodes ≠ .error (.itemOutsideCycle 1) ∧
      (compile 2 nodes).render s ≠ .error (.itemOutsideCycle 1) := by
  intro source nodes s
  have hparse : parse source = .ok nodes := toOption_eq_some_iff.mp (by decide +kernel)
  obtain ⟨hraw, hcompiled⟩ := renderNodes_ne_itemOutsideCycle_of_parse source nodes hparse s 1
  exact ⟨hparse, rfl, hraw, hcompiled 2⟩

end Template

end QueryPlanner
