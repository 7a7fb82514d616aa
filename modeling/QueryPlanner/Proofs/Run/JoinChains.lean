import Mathlib.Algebra.GroupWithZero.Nat
import QueryPlanner.Plan.JoinChain
import QueryPlanner.Proofs.Run.Widths

/-!
# Running join chains

A chain of joins lists the inputs along the left side of a plan and joins them one after the other.
Each step tests its condition on the row joined so far, by positions in that row, where a join of
two inputs tests pairs of columns of either side.  The two agree because the rows on the left of a
step are as wide as the inputs before it together, so the position of a right column is moved by
just that width.

A joined row consists of a part for each input.  Where a part starts is the sum of the widths before
it, which is what the offsets of a chain are.

## Main definitions

* `JoinChain.run?` — joins the inputs of a chain one after the other.
* `Plan.FillsHeader` — the rows of a plan are as wide as its header.
* `Plan.ComparesInRange` — the joins along the left side compare columns that exist.
* `JoinChain.Layout` — the parts of a joined row.
* `JoinChain.Represents` — a chain gives the rows of a plan, with a part for each input.

## Main results

* `agreeOn_beside` — columns of either side agree where their positions in the joined row do.
* `JoinChain.Represents.join` — one more join is one more step.
* `JoinChain.represents_spine` — the chain along the left side gives the rows of the plan.
* `JoinChain.run?_ofPlan?` — **a flattened join computes the same rows or fault, and its offsets are
  where the parts of its rows start.**
-/

namespace QueryPlanner

/-! ### Running a chain -/

/-- Whether a joined row satisfies the condition of a step. -/
def JoinCondition.holds (row : Row) (b : Bindings) : JoinCondition → Except Fault Bool
  | .equalities pairs => .ok (agreeOn pairs row row)
  | .predicate e => e.holds row b

/-- Joins the rows so far with those of an input, under the kind and the condition of a step. -/
def JoinStep.run (store : Store) (b : Bindings) (step : JoinStep) (input : Plan) (rows : List Row) :
    Except Fault (List Row) := do
  joinRows step.kind input.header.width (fun l r => step.condition.holds (l ++ r) b) rows
    (← input.run store b)

namespace JoinChain

/-- Takes steps one after the other, each with its input; none if an input is missing. -/
def runSteps? (store : Store) (b : Bindings) (inputs : List Plan) :
    Except Fault (List Row) → List JoinStep → Option (Except Fault (List Row))
  | rows, [] => some rows
  | rows, step :: steps =>
    match inputs[step.input]? with
    | some input => runSteps? store b inputs (rows >>= step.run store b input) steps
    | none => none

/-- The rows of the first input joined with the other inputs, step by step. -/
def run? (store : Store) (b : Bindings) (chain : JoinChain) : Option (Except Fault (List Row)) :=
  match chain.inputs with
  | [] => none
  | first :: _ => runSteps? store b chain.inputs (first.run store b) chain.steps

variable {store : Store} {b : Bindings}

/-- Further steps are taken on the rows of those before. -/
theorem runSteps?_append {inputs : List Plan} (steps more : List JoinStep)
    (rows : Except Fault (List Row)) :
    runSteps? store b inputs rows (steps ++ more) =
      (runSteps? store b inputs rows steps).bind fun rows =>
        runSteps? store b inputs rows more := by
  induction steps generalizing rows with
  | nil => rfl
  | cons step steps ih =>
    rw [List.cons_append, runSteps?, runSteps?]
    cases inputs[step.input]? with
    | none => rfl
    | some input => exact ih _

/-- Further inputs do not matter to steps that have theirs. -/
theorem runSteps?_more_inputs {inputs more : List Plan} {steps : List JoinStep}
    (h : ∀ step ∈ steps, step.input < inputs.length) (rows : Except Fault (List Row)) :
    runSteps? store b (inputs ++ more) rows steps = runSteps? store b inputs rows steps := by
  induction steps generalizing rows with
  | nil => rfl
  | cons step steps ih =>
    rw [runSteps?, runSteps?, List.getElem?_append_left (h step (by simp))]
    cases inputs[step.input]? with
    | none => rfl
    | some input => exact ih (fun s hs => h s (by simp [hs])) _

/-- One more input, joined by one more step. -/
theorem run?_snoc {chain : JoinChain} (h : ∀ step ∈ chain.steps, step.input < chain.inputs.length)
    {rows : Except Fault (List Row)} (hrun : chain.run? store b = some rows) (right : Plan)
    {step : JoinStep} (hstep : step.input = chain.inputs.length) :
    run? store b ⟨chain.inputs ++ [right], chain.steps ++ [step]⟩ =
      some (rows >>= step.run store b right) := by
  obtain ⟨inputs, steps⟩ := chain
  cases inputs with
  | nil => cases hrun
  | cons first others =>
    simp only [run?, List.cons_append] at hrun ⊢
    rw [← List.cons_append, runSteps?_append, runSteps?_more_inputs h, hrun, Option.bind_some,
      runSteps?, hstep, List.getElem?_concat_length]
    rfl

end JoinChain

/-! ### Conditions by position in the joined row -/

/-- **Columns of either side agree where their positions in the joined row do**, if the left ones
exist. -/
theorem agreeOn_beside {pairs : List (Nat × Nat)} {left right : Row}
    (h : ∀ p ∈ pairs, p.1 < left.length) :
    agreeOn (pairs.map fun p => (p.1, p.2 + left.length)) (left ++ right) (left ++ right) =
      agreeOn pairs left right := by
  induction pairs with
  | nil => rfl
  | cons p pairs ih =>
    have hleft : (left ++ right)[p.1]? = left[p.1]? := List.getElem?_append_left (h p (by simp))
    have hright : (left ++ right)[p.2 + left.length]? = right[p.2]? := by
      rw [List.getElem?_append_right (Nat.le_add_left _ _), Nat.add_sub_cancel]
    have hrest := ih fun q hq => h q (by simp [hq])
    simp only [agreeOn, List.map_cons, List.all_cons, hleft, hright] at hrest ⊢
    rw [hrest]

/-- A join depends on the answers for its pairs of rows only. -/
theorem joinRows_congr {kind : JoinKind} {width : Nat} {test test' : Row → Row → Except Fault Bool}
    {left right : List Row} (h : ∀ l ∈ left, ∀ r ∈ right, test l r = test' l r) :
    joinRows kind width test left right = joinRows kind width test' left right := by
  refine spreadRows_congr fun l hl => ?_
  rw [keepRows_congr (h l hl)]

/-- A row of a join is a left row with a right row beside it, or with nulls if the join is an outer
one. -/
theorem mem_joinRows {kind : JoinKind} {width : Nat} {test : Row → Row → Except Fault Bool}
    {left right out : List Row} (hout : joinRows kind width test left right = .ok out) :
    ∀ x ∈ out, ∃ l ∈ left, ∃ extra, x = l ++ extra ∧
      (extra ∈ right ∨ extra = List.replicate width .null ∧ kind = .leftOuter) := by
  intro x hx
  obtain ⟨g, hg, rfl⟩ := spreadRows_eq_ok_iff.mp hout
  obtain ⟨l, hl, hx⟩ := List.mem_flatMap.mp hx
  refine ⟨l, hl, ?_⟩
  obtain ⟨matched, hmatched, hmade⟩ := bind_eq_ok_iff.mp (hg l hl)
  obtain ⟨f, _, rfl⟩ := keepRows_eq_ok_iff.mp hmatched
  split at hmade
  · next hlone =>
    rw [← Except.ok.inj hmade, List.mem_singleton] at hx
    exact ⟨_, hx, Or.inr ⟨rfl, by simpa using (Bool.and_eq_true_iff.mp hlone).2⟩⟩
  · rw [← Except.ok.inj hmade] at hx
    obtain ⟨r, hr, rfl⟩ := List.mem_map.mp hx
    exact ⟨r, rfl, Or.inl (List.mem_filter.mp hr).1⟩

namespace Plan

/-- The rows of a plan are as wide as its header. -/
def FillsHeader (store : Store) (b : Bindings) (p : Plan) : Prop :=
  ∀ rows, p.run store b = .ok rows → ∀ row ∈ rows, row.length = p.header.width

/-- Whether a plan is a join that runs its right input once. -/
def isPlainJoin : Plan → Bool
  | .binary (.join _ _) _ _ => true
  | .binary (.joinOn _ _) _ _ => true
  | _ => false

/-- The joins along the left side compare columns that their inputs have. -/
def ComparesInRange : Plan → Prop
  | .binary (.join _ pairs) left right =>
    (∀ p ∈ pairs, p.1 < left.header.width ∧ p.2 < right.header.width) ∧ left.ComparesInRange
  | .binary (.joinOn _ _) left _ => left.ComparesInRange
  | _ => True

end Plan

/-- A join tests its condition on the joined row, by positions in it. -/
theorem Binary.run_eq_joinStep {op : Binary} {left right : Plan} {kind : JoinKind}
    {condition : JoinCondition} (hop : op.joinStep? left.header.width = some (kind, condition))
    (hrange : (Plan.binary op left right).ComparesInRange) {store : Store} {b : Bindings}
    {rows : List Row} (hrows : ∀ row ∈ rows, row.length = left.header.width) (i : Nat) :
    op.run b right.header.width rows (right.run store) =
      JoinStep.run store b ⟨i, kind, condition⟩ right rows := by
  cases op with
  | join kind' pairs =>
    obtain ⟨rfl, rfl⟩ := Prod.mk.inj (Option.some.inj hop)
    simp only [Binary.run, JoinStep.run]
    congr 1
    funext found
    -- Columns of the right input are numbered after those of the left one, and all pairs are in
    -- range.
    refine joinRows_congr fun l hl r _ => ?_
    have hpairs : ∀ p ∈ pairs, p.1 < l.length := fun p hp => by
      rw [hrows l hl]
      exact (hrange.1 p hp).1
    rw [JoinCondition.holds, ← hrows l hl, agreeOn_beside hpairs]
  | joinOn kind' predicate =>
    obtain ⟨rfl, rfl⟩ := Prod.mk.inj (Option.some.inj hop)
    rfl
  | apply _ _ | union | concat => cases hop

namespace JoinChain

/-! ### The parts of a joined row -/

/-- What may stand in a joined row for an input: one of its rows, or nulls if its step is an outer
join. -/
def Supplies (store : Store) (b : Bindings) (chain : JoinChain) (i : Nat) (part : Row) : Prop :=
  ∃ input, chain.inputs[i]? = some input ∧
    ((∃ rows, input.run store b = .ok rows ∧ part ∈ rows) ∨
      part = List.replicate input.header.width .null ∧
        ∃ step ∈ chain.steps, step.input = i ∧ step.kind = .leftOuter)

/-- The parts of a joined row, one for each input and as wide as it. -/
structure Layout (store : Store) (b : Bindings) (chain : JoinChain) (row : Row) (parts : List Row) :
    Prop where
  row_eq : row = parts.flatten
  widths_eq : parts.map List.length = chain.inputs.map fun p => p.header.width
  supplied : ∀ i part, parts[i]? = some part → chain.Supplies store b i part

/-- A chain gives the rows of a plan, and every row has a part for each input. -/
structure Represents (store : Store) (b : Bindings) (chain : JoinChain) (p : Plan) : Prop where
  run_eq : chain.run? store b = some (p.run store b)
  input_lt : ∀ step ∈ chain.steps, step.input < chain.inputs.length
  width_eq : (chain.inputs.map fun p => p.header.width).sum = p.header.width
  layout : ∀ rows, p.run store b = .ok rows → ∀ row ∈ rows, ∃ parts, chain.Layout store b row parts

variable {store : Store} {b : Bindings} {chain : JoinChain}

theorem Layout.length_row {row : Row} {parts : List Row} (h : chain.Layout store b row parts) :
    row.length = (chain.inputs.map fun p => p.header.width).sum := by
  rw [h.row_eq, List.length_flatten, h.widths_eq]

theorem Represents.fillsHeader {p : Plan} (h : chain.Represents store b p) :
    p.FillsHeader store b := by
  intro rows hrows row hrow
  obtain ⟨parts, hparts⟩ := h.layout rows hrows row hrow
  rw [hparts.length_row, h.width_eq]

/-- A single input is a chain without steps. -/
theorem represents_single {p : Plan} (hp : p.FillsHeader store b) :
    Represents store b ⟨[p], []⟩ p where
  run_eq := rfl
  input_lt := by simp
  width_eq := by simp
  layout := by
    intro rows hrows row hrow
    refine ⟨[row], ⟨by simp, by simp [hp rows hrows row hrow], fun i part hpart => ?_⟩⟩
    rw [List.getElem?_singleton, Option.ite_none_right_eq_some] at hpart
    obtain ⟨rfl, hpart⟩ := hpart
    obtain rfl := Option.some.inj hpart
    exact ⟨p, rfl, Or.inl ⟨rows, hrows, hrow⟩⟩

theorem Layout.length_parts {row : Row} {parts : List Row} (h : chain.Layout store b row parts) :
    parts.length = chain.inputs.length := by
  simpa using congrArg List.length h.widths_eq

/-- One more part beside a joined row. -/
theorem Layout.snoc {row extra : Row} {parts : List Row} (h : chain.Layout store b row parts)
    {right : Plan} {step : JoinStep} (hstep : step.input = chain.inputs.length)
    (hwidth : extra.length = right.header.width)
    (hextra : (∃ rows, right.run store b = .ok rows ∧ extra ∈ rows) ∨
      extra = List.replicate right.header.width .null ∧ step.kind = .leftOuter) :
    Layout store b ⟨chain.inputs ++ [right], chain.steps ++ [step]⟩ (row ++ extra)
      (parts ++ [extra]) where
  row_eq := by simp [h.row_eq]
  widths_eq := by simp [h.widths_eq, hwidth]
  supplied := by
    intro i part hpart
    rcases Nat.lt_or_ge i parts.length with hlt | hge
    · -- The part belongs to one of the inputs before.
      rw [List.getElem?_append_left hlt] at hpart
      obtain ⟨input, hinput, hsupplied⟩ := h.supplied i part hpart
      refine ⟨input, ?_, hsupplied.imp_right ?_⟩
      · rw [List.getElem?_append_left (h.length_parts ▸ hlt), hinput]
      · rintro ⟨hnull, s, hs, hkind⟩
        exact ⟨hnull, s, by simp [hs], hkind⟩
    · -- The part is the new one.
      rw [List.getElem?_append_right hge, List.getElem?_singleton,
        Option.ite_none_right_eq_some] at hpart
      obtain ⟨hlast, hpart⟩ := hpart
      obtain rfl : i = parts.length := by omega
      obtain rfl := Option.some.inj hpart
      refine ⟨right, by rw [h.length_parts, List.getElem?_concat_length], hextra.imp_right ?_⟩
      rintro ⟨hnull, hkind⟩
      exact ⟨hnull, step, by simp, by rw [hstep, h.length_parts], hkind⟩

/-- **One more join is one more step.** -/
theorem Represents.join {op : Binary} {left right : Plan} {kind : JoinKind}
    {condition : JoinCondition} (h : chain.Represents store b left)
    (hright : right.FillsHeader store b)
    (hop : op.joinStep? left.header.width = some (kind, condition))
    (hrange : (Plan.binary op left right).ComparesInRange) :
    Represents store b
      ⟨chain.inputs ++ [right], chain.steps ++ [⟨chain.inputs.length, kind, condition⟩]⟩
      (.binary op left right) := by
  -- Left rows fill their header, so the operator and the step join them alike.
  have hrun : (Plan.binary op left right).run store b =
      left.run store b >>= JoinStep.run store b ⟨chain.inputs.length, kind, condition⟩ right := by
    rw [Plan.run]
    cases hleft : left.run store b with
    | error f => rfl
    | ok rows => exact op.run_eq_joinStep hop hrange (h.fillsHeader rows hleft) _
  refine ⟨?_, ?_, ?_, ?_⟩
  · rw [run?_snoc h.input_lt h.run_eq right rfl, hrun]
  · intro step hstep
    rw [List.length_append, List.length_singleton]
    rcases List.mem_append.mp hstep with hold | hnew
    · exact Nat.lt_succ_of_lt (h.input_lt step hold)
    · rw [List.mem_singleton.mp hnew]
      exact Nat.lt_succ_self _
  · have hwidth := h.width_eq
    have hjoin : op.isJoin := by cases op <;> first | rfl | cases hop
    rw [List.map_append, List.sum_append, hwidth, Plan.header, Binary.width_header_of_isJoin hjoin]
    simp
  · intro out hout x hx
    rw [hrun] at hout
    obtain ⟨rows, hrows, hout⟩ := bind_eq_ok_iff.mp hout
    obtain ⟨found, hfound, hout⟩ := bind_eq_ok_iff.mp hout
    obtain ⟨l, hl, extra, rfl, hextra⟩ := mem_joinRows hout x hx
    obtain ⟨parts, hparts⟩ := h.layout rows hrows l hl
    refine ⟨parts ++ [extra], hparts.snoc rfl ?_ ?_⟩
    · -- A row of the right input has its width, and so have the nulls in its place.
      rcases hextra with hmem | ⟨rfl, _⟩
      · exact hright found hfound extra hmem
      · exact List.length_replicate
    · exact hextra.imp_left fun hmem => ⟨found, hfound, hmem⟩

/-! ### Whole plans -/

theorem spine_of_joinStep {op : Binary} {left right : Plan} {kind : JoinKind}
    {condition : JoinCondition} (hop : op.joinStep? left.header.width = some (kind, condition)) :
    spine (.binary op left right) = ⟨(spine left).inputs ++ [right],
      (spine left).steps ++ [⟨(spine left).inputs.length, kind, condition⟩]⟩ := by
  rw [spine, hop]

theorem spine_of_not_joinStep {op : Binary} {left right : Plan}
    (hop : op.joinStep? left.header.width = none) :
    spine (.binary op left right) = ⟨[.binary op left right], []⟩ := by
  rw [spine, hop]

/-- **The chain along the left side gives the rows of the plan.** -/
theorem represents_spine {p : Plan}
    (hinputs : ∀ input ∈ (spine p).inputs, input.FillsHeader store b) (hrange : p.ComparesInRange) :
    (spine p).Represents store b p := by
  induction p with
  | source leaf => exact represents_single (hinputs _ (by simp [spine]))
  | unary op input _ => exact represents_single (hinputs _ (by simp [spine]))
  | binary op left right ih _ =>
    -- Only a join continues the chain; any other operator begins one.
    cases hop : op.joinStep? left.header.width with
    | none =>
      rw [spine_of_not_joinStep hop] at hinputs ⊢
      exact represents_single (hinputs _ (by simp))
    | some step =>
      obtain ⟨kind, condition⟩ := step
      rw [spine_of_joinStep hop] at hinputs ⊢
      have hleft : left.ComparesInRange := by
        cases op with
        | join _ _ => exact hrange.2
        | joinOn _ _ => exact hrange
        | apply _ _ | union | concat => cases hop
      refine (ih (fun input hinput => hinputs input (by simp [hinput])) hleft).join ?_ hop hrange
      exact hinputs right (by simp)

/-- A join becomes the chain along its left side. -/
theorem ofPlan?_of_isPlainJoin {p : Plan} (hp : p.isPlainJoin) : ofPlan? p = some (spine p) := by
  cases p with
  | source leaf | unary op input => cases hp
  | binary op left right =>
    have hstep : ∃ step, op.joinStep? left.header.width = some step := by
      cases op <;> first | exact ⟨_, rfl⟩ | cases hp
    obtain ⟨⟨kind, condition⟩, hop⟩ := hstep
    rw [ofPlan?, spine_of_joinStep hop]
    simp

/-- The first input of a chain is no join any more. -/
theorem head?_inputs_spine (p : Plan) :
    ∃ first, (spine p).inputs.head? = some first ∧ first.isPlainJoin = false := by
  induction p with
  | source leaf => exact ⟨_, rfl, rfl⟩
  | unary op input _ => exact ⟨_, rfl, rfl⟩
  | binary op left right ih _ =>
    cases hop : op.joinStep? left.header.width with
    | none =>
      rw [spine_of_not_joinStep hop]
      refine ⟨_, rfl, ?_⟩
      cases op <;> first | rfl | cases hop
    | some step =>
      obtain ⟨kind, condition⟩ := step
      obtain ⟨first, hfirst, hjoin⟩ := ih
      rw [spine_of_joinStep hop]
      exact ⟨first, by rw [List.head?_append, hfirst, Option.some_or], hjoin⟩

/-! ### Offsets -/

theorem length_offsetsFrom (offset : Nat) (widths : List Nat) :
    (offsetsFrom offset widths).length = widths.length := by
  induction widths generalizing offset with
  | nil => rfl
  | cons w ws ih => rw [offsetsFrom, List.length_cons, ih, List.length_cons]

theorem getElem?_offsetsFrom (offset : Nat) {widths : List Nat} {i : Nat} (h : i < widths.length) :
    (offsetsFrom offset widths)[i]? = some (offset + (widths.take i).sum) := by
  induction widths generalizing offset i with
  | nil => cases h
  | cons w ws ih =>
    cases i with
    | zero => rfl
    | succ i =>
      rw [offsetsFrom, List.getElem?_cons_succ, ih _ (Nat.lt_of_succ_lt_succ h),
        List.take_succ_cons, List.sum_cons, Nat.add_assoc]

/-- The offset of an input is the width of the inputs before it. -/
theorem getElem?_offsets (chain : JoinChain) {i : Nat} (h : i < chain.inputs.length) :
    chain.offsets[i]? = some ((chain.inputs.take i).map fun p => p.header.width).sum := by
  rw [offsets, getElem?_offsetsFrom 0 (by rwa [List.length_map]), Nat.zero_add, List.map_take]

/-- In a joined row the part of an input starts at the offset of the input. -/
theorem Layout.getElem?_offsets {row : Row} {parts : List Row} (h : chain.Layout store b row parts)
    {i : Nat} (hi : i < chain.inputs.length) :
    chain.offsets[i]? = some (parts.take i).flatten.length := by
  rw [chain.getElem?_offsets hi, List.length_flatten, List.map_take, List.map_take, h.widths_eq]

/-- **A flattened join computes the same rows or fault, and its offsets are where the parts of its
rows start.**  Flattening reaches the first input that is no join.  Joining the rows of the inputs
one after the other, with conditions tested by position in the joined row, gives what running the
plan gives, if the joins compare columns that exist and the rows of the inputs are as wide as their
headers.  Every row is made of one part for each input, a row of it or nulls, and the part starts at
the offset of the input. -/
theorem run?_ofPlan? (p : Plan) (hp : p.isPlainJoin) (hrange : p.ComparesInRange) :
    ∃ chain, ofPlan? p = some chain ∧
      (∃ first, chain.inputs.head? = some first ∧ first.isPlainJoin = false) ∧
      chain.offsets.length = chain.inputs.length ∧
      ∀ store b, (∀ input ∈ chain.inputs, input.FillsHeader store b) →
        chain.run? store b = some (p.run store b) ∧
        ∀ rows, p.run store b = .ok rows → ∀ row ∈ rows, ∃ parts, chain.Layout store b row parts ∧
          ∀ i < chain.inputs.length, chain.offsets[i]? = some (parts.take i).flatten.length := by
  refine ⟨spine p, ofPlan?_of_isPlainJoin hp, head?_inputs_spine p, ?_, fun store b hinputs => ?_⟩
  · rw [offsets, length_offsetsFrom, List.length_map]
  · have hchain := represents_spine hinputs hrange
    refine ⟨hchain.run_eq, fun rows hrows row hrow => ?_⟩
    obtain ⟨parts, hparts⟩ := hchain.layout rows hrows row hrow
    exact ⟨parts, hparts, fun i hi => hparts.getElem?_offsets hi⟩

end JoinChain

namespace Sample

/-- Two branches. -/
def branches : Plan := .source (.rows ⟨[⟨"id", .int32, false⟩], []⟩ [[.int32 1], [.int32 2]])

/-- Clerks with their branch and pay, all of them in the first branch. -/
def clerks : Plan := .source (.rows ⟨[⟨"branch", .int32, false⟩, ⟨"pay", .int32, false⟩], []⟩
  [[.int32 1, .int32 30], [.int32 1, .int32 20]])

/-- A single limit of pay. -/
def limits : Plan := .source (.rows ⟨[⟨"limit", .int32, false⟩], []⟩ [[.int32 25]])

/-- Pays with their grades, a join of its own. -/
def grades : Plan := .binary (.join .inner [])
  (.source (.rows ⟨[⟨"pay", .int32, false⟩], []⟩ [[.int32 30]]))
  (.source (.rows ⟨[⟨"grade", .int32, false⟩], []⟩ [[.int32 7]]))

/-- Branches with their clerks, the limit their pay is above, and the grade of their pay. -/
def staff : Plan :=
  .binary (.join .leftOuter [(2, 0)])
    (.binary (.joinOn .inner (.not (.compare .lt (.column 2) (.column 3))))
      (.binary (.join .leftOuter [(0, 0)]) branches clerks) limits) grades

/-- The clerk of the lower pay drops out, and the branch without a clerk has no grade either.  The
join on the right stays one input, and its first column is the fifth of the joined row. -/
theorem run?_ofPlan?_staff :
    staff.isPlainJoin = true ∧ staff.ComparesInRange ∧
    ∃ chain, JoinChain.ofPlan? staff = some chain ∧
      chain.inputs = [branches, clerks, limits, grades] ∧ chain.offsets = [0, 1, 3, 4] ∧
      (∀ input ∈ chain.inputs, input.FillsHeader .empty .empty) ∧
      chain.run? .empty .empty = some (.ok [
        [.int32 1, .int32 1, .int32 30, .int32 25, .int32 30, .int32 7],
        [.int32 2, .null, .null, .int32 25, .null, .null]]) := by
  have hrange : staff.ComparesInRange := by
    refine ⟨?_, ?_, trivial⟩ <;> decide
  have hinputs : ∀ input ∈ (JoinChain.spine staff).inputs, input.FillsHeader .empty .empty := by
    have hlist : (JoinChain.spine staff).inputs = [branches, clerks, limits, grades] := rfl
    rw [hlist]
    simp only [List.forall_mem_cons]
    refine ⟨?_, ?_, ?_, ?_, by simp⟩ <;>
      (intro rows hrows; obtain rfl := Except.ok.inj hrows; decide)
  obtain ⟨chain, hchain, -, -, hrun⟩ := JoinChain.run?_ofPlan? staff rfl hrange
  obtain rfl : JoinChain.spine staff = chain := Option.some.inj hchain
  exact ⟨rfl, hrange, _, hchain, rfl, rfl, hinputs, (hrun .empty .empty hinputs).1⟩

end Sample

end QueryPlanner
