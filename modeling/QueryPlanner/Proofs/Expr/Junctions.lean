import QueryPlanner.Proofs.Expr.Clauses

/-!
# Splitting and rebuilding conjunctions and disjunctions

A tree of one connective is split into its parts from the left and can be rebuilt from them, nested
to the left whatever its shape was.  Evaluation does not tell the two trees apart: the parts are
tried in the same sequence and the first one that settles the answer ends it, so values and faults
are the same.  That holds because trying one side after the other is associative, for values that
are no truth values too.

Both connectives are treated at once; they differ in the answer of the left side that settles the
whole.

## Main definitions

* `Connective` — conjunction and disjunction, with `join`, `parts` and `rebuild`.
* `Connective.inTurn` — the outcome of one side, and then of the other if it is needed.

## Main results

* `Connective.inTurn_assoc` — how sides are grouped does not matter.
* `Connective.eval_rebuild_parts` — a tree rebuilt from its parts has the value or the fault of the
  tree.
* `Connective.parts_rebuild` — the parts of what was built from several trees are the parts of these
  trees.
* `split_and_rebuild_exact` — **splitting and rebuilding is exact** for both connectives.
-/

namespace QueryPlanner.Expr

/-- The connectives along which trees are split. -/
inductive Connective where
  | and
  | or

namespace Connective

/-- Two expressions joined by a connective. -/
def join : Connective → Expr → Expr → Expr
  | .and => .and
  | .or => .or

/-- The parts of a tree of one connective. -/
def parts : Connective → Expr → List Expr
  | .and => conjuncts
  | .or => disjuncts

/-- The parts joined again, nested to the left. -/
def rebuild : Connective → List Expr → Option Expr
  | .and => conjunction
  | .or => disjunction

/-- The answer of the left side that settles the whole. -/
def settling : Connective → Bool
  | .and => false
  | .or => true

/-- The outcome of one side, and then of the other unless the first settles the answer. -/
def inTurn (k : Connective) (first second : Except Fault Value) : Except Fault Value := do
  if (← first).isTrue = k.settling then
    return .bool k.settling
  else
    return .bool (← second).isTrue

variable (k : Connective)

theorem inTurn_of_settled {v : Value} (h : v.isTrue = k.settling) (second : Except Fault Value) :
    k.inTurn (.ok v) second = .ok (.bool k.settling) :=
  if_pos h

theorem inTurn_of_open {v : Value} (h : v.isTrue ≠ k.settling) (second : Except Fault Value) :
    k.inTurn (.ok v) second = (do return .bool (← second).isTrue) :=
  if_neg h

theorem eval_join (row : Row) (b : Bindings) (l r : Expr) :
    (k.join l r).eval row b = k.inTurn (l.eval row b) (r.eval row b) := by
  cases k with
  | and =>
    simp only [join, eval, inTurn]
    congr 1
    funext v
    cases v.isTrue <;> rfl
  | or =>
    simp only [join, eval, inTurn]
    congr 1

/-- The answer of two sides is a truth value. -/
theorem bool_inTurn (x y : Except Fault Value) :
    (do return .bool (← k.inTurn x y).isTrue) = k.inTurn x y := by
  cases x with
  | error f => rfl
  | ok v =>
    by_cases hv : v.isTrue = k.settling
    · rw [inTurn_of_settled k hv]
      rfl
    · rw [inTurn_of_open k hv]
      cases y <;> rfl

/-- **How sides are grouped does not matter**: in both groupings each is tried only after the ones
before it have settled nothing. -/
theorem inTurn_assoc (x y z : Except Fault Value) :
    k.inTurn (k.inTurn x y) z = k.inTurn x (k.inTurn y z) := by
  cases x with
  | error f => rfl
  | ok v =>
    by_cases hv : v.isTrue = k.settling
    · rw [inTurn_of_settled k hv, inTurn_of_settled k hv, inTurn_of_settled k (Value.isTrue_bool _)]
    · -- The left side settles nothing, so both are the outcome of the other two.
      rw [inTurn_of_open k hv, inTurn_of_open k hv, bool_inTurn]
      cases y <;> rfl

/-- Parts of a connective can be grouped in any way. -/
instance : Std.Associative k.inTurn := ⟨k.inTurn_assoc⟩

theorem rebuild_nil : k.rebuild [] = none := by
  cases k <;> rfl

theorem rebuild_cons (e : Expr) (es : List Expr) :
    k.rebuild (e :: es) = some (es.foldl k.join e) := by
  cases k <;> rfl

@[simp] theorem parts_join (l r : Expr) : k.parts (k.join l r) = k.parts l ++ k.parts r := by
  cases k with
  | and => exact conjuncts.eq_1 l r
  | or => exact disjuncts.eq_1 l r

/-- Induction along the joints of one connective. -/
theorem induction_parts {motive : Expr → Prop} (whole : ∀ e, k.parts e = [e] → motive e)
    (joined : ∀ l r, motive l → motive r → motive (k.join l r)) (e : Expr) : motive e := by
  cases k with
  | and =>
    induction e using conjuncts.induct with
    | case1 l r ihl ihr => exact joined l r ihl ihr
    | case2 e hne => exact whole e (conjuncts.eq_2 e hne)
  | or =>
    induction e using disjuncts.induct with
    | case1 l r ihl ihr => exact joined l r ihl ihr
    | case2 e hne => exact whole e (disjuncts.eq_2 e hne)

/-- Parts that are joined from the left are tried in turn. -/
theorem eval_foldl_join (row : Row) (b : Bindings) (e : Expr) (es : List Expr) :
    (es.foldl k.join e).eval row b =
      (es.map fun part => part.eval row b).foldl k.inTurn (e.eval row b) := by
  induction es generalizing e with
  | nil => rfl
  | cons first rest ih => rw [List.foldl_cons, ih, eval_join, List.map_cons, List.foldl_cons]

/-- Parts put behind others give a tree that is evaluated like the join of both trees. -/
theorem rebuild_append {ls rs : List Expr} {l r : Expr} (hl : k.rebuild ls = some l)
    (hr : k.rebuild rs = some r) :
    ∃ e, k.rebuild (ls ++ rs) = some e ∧ ∀ row b, e.eval row b = (k.join l r).eval row b := by
  cases ls with
  | nil => rw [rebuild_nil] at hl; cases hl
  | cons p ps =>
    cases rs with
    | nil => rw [rebuild_nil] at hr; cases hr
    | cons q qs =>
      rw [rebuild_cons] at hl hr
      obtain rfl := Option.some.inj hl
      obtain rfl := Option.some.inj hr
      refine ⟨(ps ++ q :: qs).foldl k.join p, rebuild_cons k p _, fun row b => ?_⟩
      rw [List.foldl_append, List.foldl_cons, eval_foldl_join, eval_join, List.foldl_assoc,
        eval_join, eval_foldl_join k row b q]

/-- **A tree rebuilt from its parts has the value or the fault of the tree**, on every row. -/
theorem eval_rebuild_parts (e : Expr) :
    ∃ e', k.rebuild (k.parts e) = some e' ∧ ∀ row b, e'.eval row b = e.eval row b := by
  induction e using k.induction_parts with
  | whole e hwhole => exact ⟨e, by rw [hwhole, rebuild_cons, List.foldl_nil], fun _ _ => rfl⟩
  | joined l r ihl ihr =>
    obtain ⟨l', hl', hl⟩ := ihl
    obtain ⟨r', hr', hr⟩ := ihr
    obtain ⟨e', he', heval⟩ := k.rebuild_append hl' hr'
    refine ⟨e', by rw [parts_join, he'], fun row b => ?_⟩
    rw [heval, eval_join, hl, hr, eval_join]

/-- **The parts of what was built from several trees are the parts of these trees**, in sequence. -/
theorem parts_rebuild (e : Expr) (es : List Expr) :
    ∃ e', k.rebuild (e :: es) = some e' ∧ k.parts e' = (e :: es).flatMap k.parts := by
  refine ⟨es.foldl k.join e, k.rebuild_cons e es, ?_⟩
  induction es generalizing e with
  | nil => simp
  | cons first rest ih => simp [ih]

end Connective

/-- **Splitting and rebuilding is exact.**  The conjunction of the conjuncts of an expression has
the same value or the same fault as the expression, on every row and under all bindings, and a
conjunction of several expressions has the conjuncts of all of them in sequence; so it is with
disjunctions. -/
theorem split_and_rebuild_exact :
    (∀ e : Expr, ∃ e', conjunction e.conjuncts = some e' ∧ ∀ row b, e'.eval row b = e.eval row b) ∧
    (∀ e : Expr, ∃ e', disjunction e.disjuncts = some e' ∧ ∀ row b, e'.eval row b = e.eval row b) ∧
    (∀ (first : Expr) (rest : List Expr), ∃ e, conjunction (first :: rest) = some e ∧
      e.conjuncts = (first :: rest).flatMap conjuncts) ∧
    (∀ (first : Expr) (rest : List Expr), ∃ e, disjunction (first :: rest) = some e ∧
      e.disjuncts = (first :: rest).flatMap disjuncts) :=
  ⟨Connective.and.eval_rebuild_parts, Connective.or.eval_rebuild_parts,
    Connective.and.parts_rebuild, Connective.or.parts_rebuild⟩

/-- A missing column in front ends the evaluation before an unbound parameter is met, however the
parts are nested; the number in between is no truth value. -/
example :
    let e := Expr.and (.and (.literal (.bool true)) (.column 7))
      (.and (.literal (.int32 5)) (.parameter "p"))
    e.eval [] .empty = .error (.columnOutOfRange 7 0) ∧
      (conjunction e.conjuncts).map (fun e' => e'.eval [] .empty) =
        some (.error (.columnOutOfRange 7 0)) := by
  exact ⟨rfl, rfl⟩

end QueryPlanner.Expr
