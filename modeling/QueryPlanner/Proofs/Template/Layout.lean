import QueryPlanner.Proofs.Computation
import QueryPlanner.Template.Render

/-!
# Compaction changes only layout

Compaction carries out what lays text out and joins literal text, so a compacted template is
rendered to another text than the template itself.  Seen through a filter that leaves blanks and
line breaks out, the two texts are the same, and so are the errors.  Where nothing in the template
lays text out, the filter may keep everything.  Both follow from one statement about a filter and a
draft: what a draft is rendered to after a node was added looks like what it was rendered to before,
followed by the text of the node.

## Main definitions

* `seen`, `Alike` — the characters of a text that a filter keeps, and results that agree on them.
* `Draft.render` — the text of a template being compacted.
* `Node.isFlat` — nothing in a node lays text out.
* `deleteLayout` — a text without its blanks and line breaks.

## Main results

* `Draft.alike_addAll` — adding nodes to a draft, seen through a filter.
* `render_compile` — **compaction changes only layout**.
-/

namespace QueryPlanner

namespace Template

/-! ### Texts through a filter -/

/-- The characters of a text that a filter keeps. -/
def seen (keep : Char → Bool) (text : String) : List Char := text.toList.filter keep

variable {keep : Char → Bool}

@[simp] theorem seen_append (a b : String) : seen keep (a ++ b) = seen keep a ++ seen keep b := by
  simp [seen]

theorem seen_intercalate (separator : String) (texts : List String) :
    seen keep (separator.intercalate texts)
      = (seen keep separator).intercalate (texts.map (seen keep)) := by
  induction texts with
  | nil => rfl
  | cons text texts ih =>
    cases texts with
    | nil => simp [seen]
    | cons next texts =>
      rw [String.intercalate_cons_cons, seen_append, seen_append, ih]
      simp only [List.map_cons, List.intercalate_cons_cons]

/-- The same error, or texts of which the filter keeps the same. -/
def Alike (keep : Char → Bool) (r r' : Except RenderError String) : Prop :=
  r.map (seen keep) = r'.map (seen keep)

/-! ### One text after another -/

/-- One text after another, or the first error. -/
def concat (first second : Except RenderError String) : Except RenderError String := do
  let a ← first
  let b ← second
  return a ++ b

theorem concat_assoc (r₁ r₂ r₃ : Except RenderError String) :
    concat (concat r₁ r₂) r₃ = concat r₁ (concat r₂ r₃) := by
  cases r₁ <;> cases r₂ <;> cases r₃ <;> simp [concat, String.append_assoc]

@[simp] theorem concat_ok_ok (a b : String) : concat (.ok a) (.ok b) = .ok (a ++ b) := rfl

@[simp] theorem concat_ok_empty (r : Except RenderError String) : concat r (.ok "") = r := by
  cases r <;> simp [concat]

@[simp] theorem ok_empty_concat (r : Except RenderError String) : concat (.ok "") r = r := by
  cases r <;> simp [concat]

namespace Alike

variable {r r' r'' : Except RenderError String}

theorem refl (r : Except RenderError String) : Alike keep r r := rfl

theorem trans (h : Alike keep r r') (h' : Alike keep r' r'') : Alike keep r r'' := Eq.trans h h'

/-- Agreement on texts is agreement on each of them. -/
theorem concat {q q' : Except RenderError String} (h : Alike keep r r') (h' : Alike keep q q') :
    Alike keep (concat r q) (concat r' q') := by
  have hsplit : ∀ r q : Except RenderError String, (Template.concat r q).map (seen keep) =
      (do return (← r.map (seen keep)) ++ (← q.map (seen keep))) := by
    intro r q
    cases r <;> cases q <;> simp [Template.concat, Except.map]
  rw [Alike, hsplit, hsplit, h, h']

/-- Results that agree row by row agree when they are joined. -/
theorem intercalate {f g : List String → Except RenderError String}
    (h : ∀ current, Alike keep (f current) (g current)) (separator : String)
    (rows : List (List String)) :
    Alike keep (do return separator.intercalate (← rows.mapM f))
      (do return separator.intercalate (← rows.mapM g)) := by
  -- Rows are rendered one by one, and either both renderings fail or the texts agree.
  have hrows : (rows.mapM f).map (List.map (seen keep)) =
      (rows.mapM g).map (List.map (seen keep)) := by
    induction rows with
    | nil => rfl
    | cons current rows ih =>
      have hcons : ∀ f : List String → Except RenderError String,
          ((current :: rows).mapM f).map (List.map (seen keep)) = (do
            return (← (f current).map (seen keep)) ::
              (← (rows.mapM f).map (List.map (seen keep)))) := by
        intro f
        rw [List.mapM_cons]
        cases f current <;> cases rows.mapM f <;> simp [Except.map]
      rw [hcons, hcons, h current, ih]
  -- What is seen of a joined text are the parts joined by what is seen of the separator.
  have hjoin : ∀ texts : Except RenderError (List String),
      Except.map (seen keep) (do return separator.intercalate (← texts)) =
        (texts.map (List.map (seen keep))).map (seen keep separator).intercalate := by
    intro texts
    cases texts <;> simp [Except.map, seen_intercalate]
  rw [Alike, hjoin, hjoin, hrows]

/-- Results that agree fail together. -/
theorem eq_error_iff (h : Alike keep r r') (e : RenderError) : r = .error e ↔ r' = .error e := by
  unfold Alike at h
  cases r <;> cases r' <;> simp [Except.map] at h ⊢
  rw [h]

end Alike

namespace Node

theorem renderAll_cons (s : Settings) (row : Option (List String)) (n : Node) (ns : List Node) :
    renderAll s row (n :: ns) = concat (render s row n) (renderAll s row ns) := rfl

theorem renderAll_append (s : Settings) (row : Option (List String)) (ns ms : List Node) :
    renderAll s row (ns ++ ms) = concat (renderAll s row ns) (renderAll s row ms) := by
  induction ns with
  | nil => simp [renderAll]
  | cons n ns ih => rw [List.cons_append, renderAll_cons, renderAll_cons, ih, concat_assoc]

/-- Choices among branches that agree. -/
theorem alike_variant {s : Settings} {row : Option (List String)}
    {main main' other other' : List Node} (id : String)
    (hmain : Alike keep (renderAll s row main) (renderAll s row main'))
    (hother : Alike keep (renderAll s row other) (renderAll s row other')) :
    Alike keep (render s row (.variant id main other))
      (render s row (.variant id main' other')) := by
  rw [render, render]
  split
  · exact hother
  · exact hmain

/-- Repetitions of bodies that agree on every row. -/
theorem alike_cycle {s : Settings} {row : Option (List String)}
    {body body' other other' : List Node} (id separator : String)
    (hbody : ∀ current,
      Alike keep (renderAll s (some current) body) (renderAll s (some current) body'))
    (hother : Alike keep (renderAll s row other) (renderAll s row other')) :
    Alike keep (render s row (.cycle id body separator other))
      (render s row (.cycle id body' separator other')) := by
  rw [render, render]
  cases s.cycles.lookup id with
  | none => exact .refl _
  | some rows =>
    cases rows with
    | nil => exact hother
    | cons first rest => exact .intercalate hbody separator (first :: rest)

/-! ### Nodes without layout -/

mutual

/-- Whether nothing in a node lays text out: no indented container, no delimiter of rows, and no
text that starts with a closing parenthesis. -/
def isFlat : Node → Bool
  | .text literal => literal.toList.head? != some ')'
  | .container children isIndented => !isIndented && areFlat children
  | .variant _ main alternative => areFlat main && areFlat alternative
  | .placeholder _ _ => true
  | .cycle _ body _ emptyCase => areFlat body && areFlat emptyCase
  | .item _ => true
  | .delimiter literal kind => literal.toList.head? != some ')' && kind == .column

/-- Whether nothing in several nodes lays text out. -/
def areFlat : List Node → Bool
  | [] => true
  | n :: ns => isFlat n && areFlat ns

end

end Node

/-! ### Drafts -/

namespace Draft

variable {s : Settings} {row : Option (List String)}

/-- The text of a template being compacted. -/
def render (s : Settings) (row : Option (List String)) (d : Draft) : Except RenderError String :=
  concat (Node.renderAll s row d.nodes) (.ok (String.ofList d.pending.reverse))

@[simp] theorem render_empty : empty.render s row = .ok "" := rfl

theorem renderAll_finish (d : Draft) : Node.renderAll s row d.finish = d.render s row := by
  unfold finish flush render
  cases hp : d.pending with
  | nil => simp
  | cons c cs => simp [Node.renderAll_append, Node.renderAll, Node.render]

theorem render_push (d : Draft) (n : Node) :
    (d.push n).render s row = concat (d.render s row) (n.render s row) := by
  have hlast : Node.renderAll s row [n] = n.render s row := concat_ok_empty _
  rw [← renderAll_finish d, ← hlast, ← Node.renderAll_append]
  exact concat_ok_empty _

/-- Text that is seen like more text at the end of the pending one. -/
theorem alike_of_pending {d : Draft} {pending : List Char} {text : String}
    (h : pending.reverse.filter keep = (d.pending.reverse ++ text.toList).filter keep) :
    Alike keep (render s row ⟨pending, d.nodes⟩) (concat (d.render s row) (.ok text)) := by
  rw [render, render, concat_assoc, concat_ok_ok]
  refine (Alike.refl _).concat ?_
  simpa [Alike, seen, Except.map] using h

/-- Blanks that go are not seen. -/
theorem filter_trim (hblank : keep ' ' = false) (reversed : List Char) :
    (trim reversed).filter keep = reversed.filter keep := by
  induction reversed with
  | nil => rfl
  | cons c cs ih =>
    by_cases hc : c = ' '
    · subst hc
      simpa [trim, hblank] using ih
    · simp [trim, hc]

/-- Added text is seen as it is, but for blanks before a closing parenthesis. -/
theorem alike_append (s : Settings) (row : Option (List String)) (d : Draft) (text : String)
    (h : keep ' ' = false ∨ text.toList.head? ≠ some ')') :
    Alike keep ((d.append text).render s row) (concat (d.render s row) (.ok text)) := by
  refine alike_of_pending ?_
  rcases h with hblank | hhead
  · split
    · simp [filter_trim hblank]
    · simp
  · simp [hhead]

/-- A new line is not seen where blanks and line breaks are not. -/
theorem alike_newline (s : Settings) (row : Option (List String)) (d : Draft) (indent : Nat)
    (hskip : keep ' ' = false ∧ keep '\n' = false) :
    Alike keep ((d.newline indent).render s row) (d.render s row) := by
  have h : Alike keep ((d.newline indent).render s row) (concat (d.render s row) (.ok "")) := by
    refine alike_of_pending ?_
    simp [filter_trim hskip.1, hskip.1, hskip.2]
  simpa using h

/-- A branch compacted by itself is seen as the branch. -/
theorem alike_branch {width level : Nat} {ns : List Node}
    (h : Alike keep ((empty.addAll width level ns).render s row)
      (concat (empty.render s row) (Node.renderAll s row ns))) :
    Alike keep (Node.renderAll s row (empty.addAll width level ns).finish)
      (Node.renderAll s row ns) := by
  rw [renderAll_finish]
  simpa using h

mutual

/-- **Adding a node is seen as its text after the text before**, by a filter that leaves blanks and
line breaks out, or by any filter where nothing lays text out. -/
theorem alike_add (s : Settings) (width : Nat) :
    ∀ (n : Node) (level : Nat) (row : Option (List String))
    (d : Draft), (keep ' ' = false ∧ keep '\n' = false) ∨ n.isFlat →
    Alike keep ((d.add width level n).render s row) (concat (d.render s row) (n.render s row))
  | .text literal, _, row, d, h =>
    alike_append s row d literal (h.imp And.left fun hflat => by simpa [Node.isFlat] using hflat)
  | .container children false, level, row, d, h =>
    alike_addAll s width children level row d
      (h.imp_right fun hflat => by simpa [Node.isFlat] using hflat)
  | .container children true, level, row, d, h => by
    -- Both line breaks are there to be seen, so only a filter that leaves them out agrees.
    have hskip := h.resolve_right (by simp [Node.isFlat])
    have hopen := alike_newline s row d ((level + 1) * width) hskip
    have hchildren := alike_addAll s width children (level + 1) row
      (d.newline ((level + 1) * width)) (Or.inl hskip)
    exact (alike_newline s row _ _ hskip).trans (hchildren.trans (hopen.concat (.refl _)))
  | .variant id main alternative, level, row, d, h => by
    simp only [Node.isFlat, Bool.and_eq_true] at h
    rw [add, render_push]
    refine (Alike.refl _).concat (Node.alike_variant id ?_ ?_)
    · exact alike_branch (alike_addAll s width main level row empty (h.imp_right And.left))
    · exact alike_branch (alike_addAll s width alternative level row empty (h.imp_right And.right))
  | .placeholder id name, _, _, d, _ => by
    rw [add, render_push]
    exact .refl _
  | .cycle id body separator emptyCase, level, row, d, h => by
    simp only [Node.isFlat, Bool.and_eq_true] at h
    rw [add, render_push]
    -- The body is compacted once and rendered for each row, so it has to agree on all of them.
    refine (Alike.refl _).concat (Node.alike_cycle id separator (fun current => ?_) ?_)
    · exact alike_branch (alike_addAll s width body level (some current) empty
        (h.imp_right And.left))
    · exact alike_branch (alike_addAll s width emptyCase level row empty (h.imp_right And.right))
  | .item index, _, _, d, _ => by
    rw [add, render_push]
    exact .refl _
  | .delimiter literal .column, _, row, d, h => by
    have htext := alike_append s row d literal
      (h.imp And.left fun hflat => by simpa [Node.isFlat] using hflat)
    have hblank : Alike keep (((d.append literal).append " ").render s row) _ :=
      alike_append s row (d.append literal) " " (Or.inr (by decide))
    rw [add, Node.render, ← concat_ok_ok, ← concat_assoc]
    exact hblank.trans (htext.concat (.refl _))
  | .delimiter literal .row, level, row, d, h => by
    have hskip := h.resolve_right (by simp [Node.isFlat])
    have htext := alike_append s row d literal (Or.inl hskip.1)
    have hbreak : Alike keep (.ok literal) (.ok (literal ++ "\n")) := by
      simp [Alike, Except.map, seen, hskip.2]
    exact (alike_newline s row _ _ hskip).trans (htext.trans ((Alike.refl _).concat hbreak))

theorem alike_addAll (s : Settings) (width : Nat) : ∀ (ns : List Node) (level : Nat)
    (row : Option (List String)) (d : Draft),
    (keep ' ' = false ∧ keep '\n' = false) ∨ Node.areFlat ns →
    Alike keep ((d.addAll width level ns).render s row)
      (concat (d.render s row) (Node.renderAll s row ns))
  | [], _, row, d, _ => by
    rw [addAll, Node.renderAll, concat_ok_empty]
    exact .refl _
  | n :: ns, level, row, d, h => by
    simp only [Node.areFlat, Bool.and_eq_true] at h
    have hn := alike_add s width n level row d (h.imp_right And.left)
    have hns := alike_addAll s width ns level row (d.add width level n) (h.imp_right And.right)
    rw [Node.renderAll_cons, ← concat_assoc]
    exact hns.trans (hn.concat (.refl _))

end

end Draft

/-! ### Compacted templates -/

/-- A compacted template is seen as the template. -/
theorem alike_compile (s : Settings) (width : Nat) (nodes : List Node)
    (h : (keep ' ' = false ∧ keep '\n' = false) ∨ Node.areFlat nodes) :
    Alike keep ((compile width nodes).render s) (renderNodes s nodes) :=
  Draft.alike_branch (Draft.alike_addAll s width nodes 0 none .empty h)

/-- A text without its blanks and line breaks. -/
def deleteLayout (text : String) : String :=
  String.ofList (text.toList.filter fun c => c != ' ' && c != '\n')

theorem Alike.map_deleteLayout {r r' : Except RenderError String}
    (h : Alike (fun c => c != ' ' && c != '\n') r r') :
    r.map deleteLayout = r'.map deleteLayout := by
  have hseen : ∀ r : Except RenderError String,
      r.map deleteLayout = (r.map (seen fun c => c != ' ' && c != '\n')).map String.ofList := by
    intro r
    cases r <;> rfl
  rw [hseen, hseen, h]

/-- A filter that keeps everything tells all texts apart. -/
theorem Alike.eq {r r' : Except RenderError String} (h : Alike (fun _ => true) r r') : r = r' := by
  have hall : ∀ text : String, seen (fun _ => true) text = text.toList :=
    fun text => List.filter_eq_self.mpr fun _ _ => rfl
  unfold Alike at h
  cases r <;> cases r' <;> simp [Except.map, hall, String.toList_inj] at h ⊢ <;> exact h

/-- **Compaction changes only layout.**  Under all settings and with every width of indentation, a
template and its compacted form fail with the same error, or give texts that are equal without
blanks and line breaks.  Where nothing lays text out, the results are equal as they are. -/
theorem render_compile (s : Settings) (width : Nat) (nodes : List Node) :
    ((compile width nodes).render s).map deleteLayout = (renderNodes s nodes).map deleteLayout ∧
      (Node.areFlat nodes → (compile width nodes).render s = renderNodes s nodes) := by
  constructor
  · exact (alike_compile s width nodes (Or.inl ⟨rfl, rfl⟩)).map_deleteLayout
  · intro hflat
    exact (alike_compile s width nodes (Or.inr hflat)).eq

/-- A list of ids whose blank before the parenthesis stays, as the parenthesis does not begin a
text. -/
theorem render_compile_ids :
    let nodes : List Node := [.text "id IN (", .cycle "ids" [.text "#", .item 0] ", "
      [.text "NULL"], .container [.text " ", .text "/* end */)", .delimiter ";" .column] false]
    let s := Settings.empty.withCycle "ids" [["4"], ["7"]]
    Node.areFlat nodes = true ∧ (compile 2 nodes).render s = renderNodes s nodes ∧
      renderNodes s nodes = .ok "id IN (#4, #7 /* end */); " := by
  intro nodes s
  exact ⟨rfl, (render_compile s 2 nodes).2 rfl, rfl⟩

end Template

end QueryPlanner
