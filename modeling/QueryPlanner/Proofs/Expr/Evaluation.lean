import QueryPlanner.Key.Condition
import QueryPlanner.Proofs.Computation

/-!
# When expressions have a value

Evaluating an expression can only fail at a column the row does not have or at an unbound parameter.
Apart from columns, an expression gets its values from its operands: the literals and parameters in
it.

## Main definitions

* `Expr.operands` — the literals and parameters of an expression.
* `Expr.Evaluable` — the row has the columns and the parameters are bound.
* `Expr.Blames` — a fault that a missing column or an unbound parameter gives.

## Main results

* `Expr.blames_of_eval` — there is no other fault.
* `Expr.eval_ok` — an evaluable expression has a value.
* `Expr.matchesAny_operands` — membership in a list of bound operands.
-/

namespace QueryPlanner

/-! ### Operands -/

namespace KeyOperand

theorem resolve_eq_ok_iff {b : Bindings} {k : KeyOperand} {w : Value} :
    k.resolve b = .ok w ↔ k.value? b = some w := by
  cases k with
  | literal v => simp [resolve, value?]
  | parameter name =>
    simp only [resolve, value?, Bindings.resolve]
    cases b.get? name <;> simp

theorem eval_of_ofExpr? {row : Row} {b : Bindings} {e : Expr} {k : KeyOperand}
    (h : ofExpr? e = some k) : e.eval row b = k.resolve b := by
  cases e <;> simp [ofExpr?] at h <;> subst h <;> rfl

end KeyOperand

namespace Expr

mutual

/-- The literals and parameters of an expression, in order of occurrence. -/
def operands : Expr → List KeyOperand
  | .column _ => []
  | .literal v => [.literal v]
  | .parameter name => [.parameter name]
  | .compare _ l r => l.operands ++ r.operands
  | .and l r => l.operands ++ r.operands
  | .or l r => l.operands ++ r.operands
  | .not e => e.operands
  | .oneOf e choices => e.operands ++ operandsOf choices
  | .isNull e => e.operands
  | .call _ target argument => target.operands ++ argument.operands
  | .conditional test a b => test.operands ++ a.operands ++ b.operands

/-- The literals and parameters of several expressions. -/
def operandsOf : List Expr → List KeyOperand
  | [] => []
  | e :: es => e.operands ++ operandsOf es

end

theorem operands_of_ofExpr? {e : Expr} {k : KeyOperand} (h : KeyOperand.ofExpr? e = some k) :
    e.operands = [k] := by
  cases e <;> simp [KeyOperand.ofExpr?] at h <;> subst h <;> rfl

theorem operandsOf_of_mapM_ofExpr? : ∀ {es : List Expr} {ks : List KeyOperand},
    es.mapM KeyOperand.ofExpr? = some ks → operandsOf es = ks := by
  intro es
  induction es with
  | nil =>
    intro ks h
    simpa [operandsOf] using h
  | cons e es ih =>
    intro ks h
    rw [List.mapM_cons] at h
    obtain ⟨k, hk, h⟩ := Option.bind_eq_some_iff.mp h
    obtain ⟨ks', hks, h⟩ := Option.bind_eq_some_iff.mp h
    obtain rfl := Option.some.inj h
    rw [operandsOf, operands_of_ofExpr? hk, ih hks]
    rfl

/-- Membership in a list of bound operands compares with their values. -/
theorem matchesAny_operands (row : Row) {b : Bindings} (v : Value) : ∀ {es : List Expr}
    {ks : List KeyOperand} {ws : List Value}, es.mapM KeyOperand.ofExpr? = some ks →
    ks.mapM (KeyOperand.value? b) = some ws →
    matchesAny row b v es = .ok (ws.any fun w => v.compare? w = some .eq) := by
  intro es
  induction es with
  | nil =>
    intro ks ws hks hws
    simp at hks
    subst hks
    simp at hws
    subst hws
    rfl
  | cons e es ih =>
    intro ks ws hks hws
    rw [List.mapM_cons] at hks
    obtain ⟨k, hk, hks⟩ := Option.bind_eq_some_iff.mp hks
    obtain ⟨ks', hks', hks⟩ := Option.bind_eq_some_iff.mp hks
    obtain rfl := Option.some.inj hks
    rw [List.mapM_cons] at hws
    obtain ⟨w, hw, hws⟩ := Option.bind_eq_some_iff.mp hws
    obtain ⟨ws', hws', hws⟩ := Option.bind_eq_some_iff.mp hws
    obtain rfl := Option.some.inj hws
    -- The first choice has a value; the others are looked at only if it does not match.
    rw [matchesAny, KeyOperand.eval_of_ofExpr? hk, KeyOperand.resolve_eq_ok_iff.mpr hw]
    by_cases heq : v.compare? w = some .eq
    · simp [heq]
    · simp [heq, ih hks' hws']

/-! ### Evaluable expressions -/

/-- The row has every column that an expression reads, and its parameters are bound. -/
structure Evaluable (row : Row) (b : Bindings) (e : Expr) : Prop where
  columns : ∀ c ∈ e.columnsRead, c < row.length
  operands : ∀ k ∈ e.operands, (k.value? b).isSome

/-- A fault of evaluating something that reads some columns and operands: one of the columns is
missing, or one of the operands is an unbound parameter. -/
def Blames (row : Row) (b : Bindings) (columns : List Nat) (operands : List KeyOperand)
    (f : Fault) : Prop :=
  (∃ c ∈ columns, row.length ≤ c ∧ f = .columnOutOfRange c row.length) ∨
    ∃ name, KeyOperand.parameter name ∈ operands ∧ b.get? name = none ∧ f = .unboundParameter name

theorem Blames.inl {row : Row} {b : Bindings} {f : Fault} {cs : List Nat} {ks : List KeyOperand}
    (h : Blames row b cs ks f) (ds : List Nat) (ls : List KeyOperand) :
    Blames row b (cs ++ ds) (ks ++ ls) f := by
  rcases h with ⟨c, hc, hlen, hf⟩ | ⟨name, hname, hget, hf⟩
  · exact Or.inl ⟨c, List.mem_append_left ds hc, hlen, hf⟩
  · exact Or.inr ⟨name, List.mem_append_left ls hname, hget, hf⟩

theorem Blames.inr {row : Row} {b : Bindings} {f : Fault} {cs : List Nat} {ks : List KeyOperand}
    (h : Blames row b cs ks f) (ds : List Nat) (ls : List KeyOperand) :
    Blames row b (ds ++ cs) (ls ++ ks) f := by
  rcases h with ⟨c, hc, hlen, hf⟩ | ⟨name, hname, hget, hf⟩
  · exact Or.inl ⟨c, List.mem_append_right ds hc, hlen, hf⟩
  · exact Or.inr ⟨name, List.mem_append_right ls hname, hget, hf⟩

theorem blames_column {row : Row} {b : Bindings} {i : Nat} {f : Fault}
    (h : Row.column row i = .error f) : Blames row b [i] [] f := by
  unfold Row.column at h
  split at h
  · cases h
  · next hnone =>
    exact Or.inl ⟨i, by simp, List.getElem?_eq_none_iff.mp hnone, (Except.error.inj h).symm⟩

theorem blames_resolve {row : Row} {b : Bindings} {name : String} {f : Fault}
    (h : b.resolve name = .error f) : Blames row b [] [.parameter name] f := by
  unfold Bindings.resolve at h
  split at h
  · cases h
  · next hnone => exact Or.inr ⟨name, by simp, hnone, (Except.error.inj h).symm⟩

mutual

/-- **Evaluating an expression fails only at a column the row does not have or at an unbound
parameter.** -/
theorem blames_of_eval {row : Row} {b : Bindings} : ∀ (e : Expr) (f : Fault),
    e.eval row b = .error f → Blames row b e.columnsRead e.operands f
  | .column i, f, h => blames_column h
  | .literal v, f, h => by cases h
  | .parameter name, f, h => blames_resolve h
  | .compare op l r, f, h => by
    rw [eval] at h
    rcases bind_eq_error_iff.mp h with h | ⟨x, _, h⟩
    · exact (blames_of_eval l f h).inl _ _
    · rcases bind_eq_error_iff.mp h with h | ⟨y, _, h⟩
      · exact (blames_of_eval r f h).inr _ _
      · cases h
  | .and l r, f, h => by
    rw [eval] at h
    rcases bind_eq_error_iff.mp h with h | ⟨x, _, h⟩
    · exact (blames_of_eval l f h).inl _ _
    · -- The right side is evaluated only if the left one is true.
      split at h
      · rcases bind_eq_error_iff.mp h with h | ⟨y, _, h⟩
        · exact (blames_of_eval r f h).inr _ _
        · cases h
      · cases h
  | .or l r, f, h => by
    rw [eval] at h
    rcases bind_eq_error_iff.mp h with h | ⟨x, _, h⟩
    · exact (blames_of_eval l f h).inl _ _
    · -- The right side is evaluated only if the left one is not true.
      split at h
      · cases h
      · rcases bind_eq_error_iff.mp h with h | ⟨y, _, h⟩
        · exact (blames_of_eval r f h).inr _ _
        · cases h
  | .not e, f, h => by
    rw [eval] at h
    rcases bind_eq_error_iff.mp h with h | ⟨x, _, h⟩
    · exact blames_of_eval e f h
    · cases h
  | .oneOf e choices, f, h => by
    rw [eval] at h
    rcases bind_eq_error_iff.mp h with h | ⟨x, _, h⟩
    · exact (blames_of_eval e f h).inl _ _
    · rcases bind_eq_error_iff.mp h with h | ⟨y, _, h⟩
      · exact (blames_of_matchesAny x choices f h).inr _ _
      · cases h
  | .isNull e, f, h => by
    rw [eval] at h
    rcases bind_eq_error_iff.mp h with h | ⟨x, _, h⟩
    · exact blames_of_eval e f h
    · cases h
  | .call method target argument, f, h => by
    rw [eval] at h
    rcases bind_eq_error_iff.mp h with h | ⟨x, _, h⟩
    · exact (blames_of_eval target f h).inl _ _
    · rcases bind_eq_error_iff.mp h with h | ⟨y, _, h⟩
      · exact (blames_of_eval argument f h).inr _ _
      · split at h <;> cases h
  | .conditional test whenTrue whenFalse, f, h => by
    rw [eval] at h
    rcases bind_eq_error_iff.mp h with h | ⟨x, _, h⟩
    · exact ((blames_of_eval test f h).inl _ _).inl _ _
    · -- Only one of the branches is evaluated.
      split at h
      · exact ((blames_of_eval whenTrue f h).inr _ _).inl _ _
      · exact (blames_of_eval whenFalse f h).inr _ _

theorem blames_of_matchesAny {row : Row} {b : Bindings} (v : Value) :
    ∀ (es : List Expr) (f : Fault),
    matchesAny row b v es = .error f → Blames row b (columnsReadAll es) (operandsOf es) f
  | [], f, h => by cases h
  | e :: es, f, h => by
    rw [matchesAny] at h
    rcases bind_eq_error_iff.mp h with h | ⟨w, _, h⟩
    · exact (blames_of_eval e f h).inl _ _
    · split at h
      · cases h
      · exact (blames_of_matchesAny v es f h).inr _ _

end

/-- An expression has a value if the row has its columns and its parameters are bound. -/
theorem eval_ok {row : Row} {b : Bindings} (e : Expr) (hc : ∀ c ∈ e.columnsRead, c < row.length)
    (ho : ∀ k ∈ e.operands, (k.value? b).isSome) : ∃ v, e.eval row b = .ok v := by
  cases h : e.eval row b with
  | ok v => exact ⟨v, rfl⟩
  | error f =>
    rcases blames_of_eval e f h with ⟨c, hmem, hle, _⟩ | ⟨name, hmem, hget, _⟩
    · exact absurd (hc c hmem) (by omega)
    · have hsome := ho _ hmem
      simp [KeyOperand.value?, hget] at hsome

/-- Where the row has the columns of an expression, only an unbound parameter can make it fail. -/
theorem exists_unbound_of_eval {row : Row} {b : Bindings} {e : Expr} {f : Fault}
    (hc : ∀ c ∈ e.columnsRead, c < row.length) (h : e.eval row b = .error f) :
    ∃ name, f = .unboundParameter name := by
  rcases blames_of_eval e f h with ⟨c, hmem, hle, _⟩ | ⟨name, _, _, hf⟩
  · exact absurd (hc c hmem) (by omega)
  · exact ⟨name, hf⟩

end Expr

end QueryPlanner
