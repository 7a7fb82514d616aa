import QueryPlanner.Proofs.Key.Conditions
import QueryPlanner.Proofs.Run.Outcomes

/-!
# The bindings that parts of a plan run with

The right input of a correlated join runs once for each left row, with columns of the row bound to
parameters.  What a part of a plan needs from its bindings is therefore asked of all bindings that
occur while the plan runs.

## Main definitions

* `Plan.parameters` — the parameters that a plan expects to be bound.
* `Plan.Throughout` — a statement about every part of a plan and the bindings it runs with.

## Main results

* `Plan.throughout_isSome` — if the parameters of a plan are bound, then so are those of every part.
-/

namespace QueryPlanner

/-! ### Bindings -/

namespace Bindings

theorem lookup_filter_ne {name other : String} (h : other ≠ name) :
    ∀ entries : List (String × Value),
      (entries.filter fun e => e.1 != name).lookup other = entries.lookup other := by
  intro entries
  induction entries with
  | nil => rfl
  | cons e entries ih =>
    obtain ⟨key, v⟩ := e
    rw [List.filter_cons, List.lookup_cons]
    by_cases he : key = name
    · have hne : (other == name) = false := by simp [h]
      simp [he, hne, ih]
    · simp [he, List.lookup_cons, ih]

theorem get?_insert (b : Bindings) (name other : String) (v : Value) :
    (b.insert name v).get? other = if other = name then some v else b.get? other := by
  unfold insert get?
  rw [List.lookup_cons]
  by_cases h : other = name
  · simp [h]
  · have hne : (other == name) = false := by simp [h]
    simp [hne, h, lookup_filter_ne h]

/-- Binding columns of a row binds their names and unbinds nothing. -/
theorem isSome_get?_ofColumns {row : Row} {name : String} : ∀ {columns : List (Nat × String)}
    {b b' : Bindings}, b.ofColumns row columns = .ok b' →
    (name ∈ columns.map Prod.snd ∨ (b.get? name).isSome) → (b'.get? name).isSome := by
  intro columns
  induction columns with
  | nil =>
    intro b b' h hname
    obtain rfl := Except.ok.inj h
    simpa using hname
  | cons c columns ih =>
    intro b b' h hname
    obtain ⟨v, _, h⟩ := bind_eq_ok_iff.mp h
    refine ih h ?_
    rw [get?_insert]
    by_cases hc : name = c.2
    · exact Or.inr (by simp [hc])
    · rw [if_neg hc]
      simpa [hc] using hname

end Bindings

/-! ### Operands of operators -/

/-- The name of an operand that is a parameter. -/
def KeyOperand.name? : KeyOperand → Option String
  | .literal _ => none
  | .parameter name => some name

theorem KeyOperand.isSome_value? {b : Bindings} {k : KeyOperand}
    (h : ∀ name, k.name? = some name → (b.get? name).isSome) : (k.value? b).isSome := by
  cases k with
  | literal v => rfl
  | parameter name => exact h name rfl

/-- The operands that a leaf compares keys with. -/
def Source.operands : Source → List KeyOperand
  | .scan _ => []
  | .rows _ _ => []
  | .seek _ key => [key]
  | .range _ condition => condition.operands
  | .rangeSet _ condition => condition.operands
  | .multiSeek _ keys => keys

/-- The operands in the expressions of an operator. -/
def Unary.operands : Unary → List KeyOperand
  | .filter predicate => predicate.operands
  | .calculate columns => columns.flatMap fun c => c.expr.operands
  | _ => []

/-- The operands in the predicate of an operator. -/
def Binary.operands : Binary → List KeyOperand
  | .joinOn _ predicate => predicate.operands
  | _ => []

/-- The parameters that an operator binds for its right input. -/
def Binary.binds : Binary → List String
  | .apply _ columns => columns.map Prod.snd
  | _ => []

namespace Plan

/-- The operands of the outermost operator. -/
def ownOperands : Plan → List KeyOperand
  | .source s => s.operands
  | .unary op _ => op.operands
  | .binary op _ _ => op.operands

/-- The parameters that a plan mentions, apart from those that an operator above them binds. -/
def parameters : Plan → List String
  | .source s => s.operands.filterMap KeyOperand.name?
  | .unary op input => op.operands.filterMap KeyOperand.name? ++ input.parameters
  | .binary op left right => op.operands.filterMap KeyOperand.name? ++ left.parameters ++
      right.parameters.filter fun name => !op.binds.contains name

/-! ### Statements about every part -/

@[simp] theorem mem_subplans_self (p : Plan) : p ∈ p.subplans := by
  cases p <;> simp [subplans]

/-- A statement holds of every part of a plan, under all bindings that the part runs with. -/
def Throughout (store : Store) (P : Plan → Bindings → Prop) : Plan → Bindings → Prop
  | .source s, b => P (.source s) b
  | .unary op input, b => P (.unary op input) b ∧ input.Throughout store P b
  | .binary op left right, b => P (.binary op left right) b ∧ left.Throughout store P b ∧
      ∀ b' ∈ op.rightBindings b (left.run store b), right.Throughout store P b'

variable {store : Store} {P Q : Plan → Bindings → Prop}

theorem Throughout.self {p : Plan} {b : Bindings} (h : p.Throughout store P b) : P p b := by
  cases p with
  | source s => exact h
  | unary op input => exact h.1
  | binary op left right => exact h.1

theorem Throughout.and : ∀ {p : Plan} {b : Bindings}, p.Throughout store P b →
    p.Throughout store Q b → p.Throughout store (fun q b => P q b ∧ Q q b) b := by
  intro p
  induction p with
  | source s => intro b hP hQ; exact ⟨hP, hQ⟩
  | unary op input ih => intro b hP hQ; exact ⟨⟨hP.1, hQ.1⟩, ih hP.2 hQ.2⟩
  | binary op left right ihl ihr =>
    intro b hP hQ
    exact ⟨⟨hP.1, hQ.1⟩, ihl hP.2.1 hQ.2.1, fun b' hb' => ihr (hP.2.2 b' hb') (hQ.2.2 b' hb')⟩

theorem Throughout.imp : ∀ {p : Plan} {b : Bindings},
    (∀ q ∈ p.subplans, ∀ b, P q b → Q q b) → p.Throughout store P b → p.Throughout store Q b := by
  intro p
  induction p with
  | source s => intro b h hP; exact h _ (by simp [subplans]) _ hP
  | unary op input ih =>
    intro b h hP
    exact ⟨h _ (by simp [subplans]) _ hP.1, ih (fun q hq => h q (by simp [subplans, hq])) hP.2⟩
  | binary op left right ihl ihr =>
    intro b h hP
    exact ⟨h _ (by simp [subplans]) _ hP.1, ihl (fun q hq => h q (by simp [subplans, hq])) hP.2.1,
      fun b' hb' => ihr (fun q hq => h q (by simp [subplans, hq])) (hP.2.2 b' hb')⟩

/-- The bindings of the right input bind what the operator binds, and what was bound before. -/
theorem isSome_of_mem_rightBindings {op : Binary} {b b' : Bindings}
    {left : Except Fault (List Row)} (h : b' ∈ op.rightBindings b left) {name : String}
    (hname : name ∈ op.binds ∨ (b.get? name).isSome) : (b'.get? name).isSome := by
  cases op with
  | apply kind columns =>
    obtain ⟨_, _, row, _, hb'⟩ := h
    exact Bindings.isSome_get?_ofColumns hb' hname
  | _ =>
    obtain rfl := h
    exact hname.resolve_left (by simp [Binary.binds])

/-- **If the parameters of a plan are bound, then so are those of every part.** -/
theorem throughout_isSome : ∀ {p : Plan} {b : Bindings},
    (∀ name ∈ p.parameters, (b.get? name).isSome) →
    p.Throughout store (fun q b => ∀ k ∈ q.ownOperands, (k.value? b).isSome) b := by
  have hown : ∀ {ks : List KeyOperand} {b : Bindings},
      (∀ name ∈ ks.filterMap KeyOperand.name?, (b.get? name).isSome) →
      ∀ k ∈ ks, (k.value? b).isSome := by
    intro ks b h k hk
    exact KeyOperand.isSome_value? fun name hname => h name (List.mem_filterMap.mpr ⟨k, hk, hname⟩)
  intro p
  induction p with
  | source s => intro b h; exact hown h
  | unary op input ih =>
    intro b h
    simp only [parameters, List.mem_append] at h
    exact ⟨hown fun name hn => h name (Or.inl hn), ih fun name hn => h name (Or.inr hn)⟩
  | binary op left right ihl ihr =>
    intro b h
    simp only [parameters, List.mem_append] at h
    refine ⟨hown fun name hn => h name (Or.inl (Or.inl hn)),
      ihl fun name hn => h name (Or.inl (Or.inr hn)), fun b' hb' => ihr fun name hn => ?_⟩
    -- The right input has the bindings of the left one, and those that the operator makes.
    refine isSome_of_mem_rightBindings hb' ?_
    by_cases hbinds : name ∈ op.binds
    · exact Or.inl hbinds
    · exact Or.inr (h name (Or.inr (List.mem_filter.mpr ⟨hn, by simpa using hbinds⟩)))

end Plan

end QueryPlanner
