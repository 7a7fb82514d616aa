import QueryPlanner.Expr.Dnf
import QueryPlanner.Proofs.Expr.Evaluation

/-!
# Conjunctions and clauses of a predicate

Splitting a predicate into conjuncts, or into the clauses of its normal form, keeps the rows it
accepts.  A conjunction accepts a row if all its parts do, whatever fails on the way.  The clauses
decide a row as the predicate does wherever the predicate has an answer, even if parts that were not
needed for it fail.

## Main definitions

* `Expr.accepts` — whether an expression has the value `true` on a row.
* `Expr.Decided` — evaluating a predicate on a row gives an answer.
* `Expr.holdAll` — trying several predicates in turn.
* `Expr.ReadsWithin` — an expression reads no more columns and operands than another.

## Main results

* `Expr.all_accepts_conjuncts` — a predicate accepts a row if all its conjuncts do.
* `Expr.holds_conjunction` — evaluating a conjunction is trying its parts in turn, faults included.
* `Dnf.any_accepts_of_holds` — the answer of a predicate is whether all parts of one of its clauses
  are accepted.
-/

namespace QueryPlanner

@[simp] theorem Value.isTrue_bool (x : Bool) : (Value.bool x).isTrue = x := rfl

namespace Expr

variable {row : Row} {b : Bindings}

/-- Whether an expression has the value `true` on a row. -/
def accepts (row : Row) (b : Bindings) (e : Expr) : Bool :=
  match e.eval row b with
  | .ok v => v.isTrue
  | .error _ => false

theorem accepts_of_eval {e : Expr} {v : Value} (h : e.eval row b = .ok v) :
    e.accepts row b = v.isTrue := by
  rw [accepts, h]

theorem Evaluable.eval_eq {e : Expr} (h : e.Evaluable row b) : ∃ v, e.eval row b = .ok v :=
  eval_ok e h.columns h.operands

theorem Evaluable.holds_eq {e : Expr} (h : e.Evaluable row b) :
    e.holds row b = .ok (e.accepts row b) := by
  obtain ⟨v, hv⟩ := h.eval_eq
  rw [holds, accepts, hv]
  rfl

/-! ### Connectives -/

/-- A conjunction accepts what both sides accept, also where one of them fails. -/
@[simp] theorem accepts_and (l r : Expr) :
    (Expr.and l r).accepts row b = (l.accepts row b && r.accepts row b) := by
  simp only [accepts, eval]
  cases hl : l.eval row b with
  | error e => rfl
  | ok x =>
    rw [ok_bind]
    cases hx : x.isTrue with
    | false => simp [hx]
    | true => cases r.eval row b <;> simp [hx]

theorem holds_and (l r : Expr) : (Expr.and l r).holds row b =
    (do if ← l.holds row b then r.holds row b else return false) := by
  simp only [holds, eval]
  cases l.eval row b with
  | error f => rfl
  | ok x =>
    cases hx : x.isTrue with
    | false => simp [hx]
    | true => cases r.eval row b <;> simp [hx]

theorem holds_or (l r : Expr) : (Expr.or l r).holds row b =
    (do if ← l.holds row b then return true else r.holds row b) := by
  simp only [holds, eval]
  cases l.eval row b with
  | error f => rfl
  | ok x =>
    cases hx : x.isTrue with
    | false => cases r.eval row b <;> simp [hx]
    | true => simp [hx]

theorem holds_not (e : Expr) : (Expr.not e).holds row b = (do return !(← e.holds row b)) := by
  simp only [holds, eval]
  cases e.eval row b <;> rfl

theorem accepts_of_holds {e : Expr} {x : Bool} (h : e.holds row b = .ok x) :
    e.accepts row b = x := by
  obtain ⟨v, hv, hx⟩ := bind_eq_ok_iff.mp h
  rw [accepts_of_eval hv]
  exact Except.ok.inj hx

/-! ### Predicates with an answer -/

/-- Evaluating a predicate on a row gives an answer. -/
def Decided (row : Row) (b : Bindings) (e : Expr) : Prop := ∃ x, e.holds row b = .ok x

theorem decided_iff_eval {e : Expr} : e.Decided row b ↔ ∃ v, e.eval row b = .ok v := by
  constructor
  · rintro ⟨x, hx⟩
    obtain ⟨v, hv, -⟩ := bind_eq_ok_iff.mp hx
    exact ⟨v, hv⟩
  · rintro ⟨v, hv⟩
    exact ⟨v.isTrue, by rw [holds, hv]; rfl⟩

theorem Decided.holds_eq {e : Expr} (h : e.Decided row b) :
    e.holds row b = .ok (e.accepts row b) := by
  obtain ⟨x, hx⟩ := h
  rw [hx, accepts_of_holds hx]

theorem Decided.and {l r : Expr} (hl : l.Decided row b) (hr : r.Decided row b) :
    (Expr.and l r).Decided row b := by
  obtain ⟨x, hx⟩ := hl
  rw [Decided, holds_and, hx, ok_bind]
  cases x with
  | false => exact ⟨false, rfl⟩
  | true => exact hr

theorem Decided.or {l r : Expr} (hl : l.Decided row b) (hr : r.Decided row b) :
    (Expr.or l r).Decided row b := by
  obtain ⟨x, hx⟩ := hl
  rw [Decided, holds_or, hx, ok_bind]
  cases x with
  | false => exact hr
  | true => exact ⟨true, rfl⟩

theorem Decided.not {e : Expr} (h : e.Decided row b) : (Expr.not e).Decided row b := by
  obtain ⟨x, hx⟩ := h
  exact ⟨!x, by rw [holds_not, hx]; rfl⟩

/-! ### Reading no more than another expression -/

/-- An expression reads no columns and has no operands beyond those of another. -/
structure ReadsWithin (part whole : Expr) : Prop where
  columns : ∀ c ∈ part.columnsRead, c ∈ whole.columnsRead
  operands : ∀ k ∈ part.operands, k ∈ whole.operands

theorem ReadsWithin.refl (e : Expr) : e.ReadsWithin e := ⟨fun _ h => h, fun _ h => h⟩

theorem ReadsWithin.trans {e f g : Expr} (h : e.ReadsWithin f) (h' : f.ReadsWithin g) :
    e.ReadsWithin g :=
  ⟨fun c hc => h'.columns c (h.columns c hc), fun k hk => h'.operands k (h.operands k hk)⟩

theorem readsWithin_and_left (l r : Expr) : l.ReadsWithin (.and l r) :=
  ⟨fun c hc => by simp [columnsRead, hc], fun k hk => by simp [operands, hk]⟩

theorem readsWithin_and_right (l r : Expr) : r.ReadsWithin (.and l r) :=
  ⟨fun c hc => by simp [columnsRead, hc], fun k hk => by simp [operands, hk]⟩

theorem readsWithin_or_left (l r : Expr) : l.ReadsWithin (.or l r) :=
  ⟨fun c hc => by simp [columnsRead, hc], fun k hk => by simp [operands, hk]⟩

theorem readsWithin_or_right (l r : Expr) : r.ReadsWithin (.or l r) :=
  ⟨fun c hc => by simp [columnsRead, hc], fun k hk => by simp [operands, hk]⟩

theorem readsWithin_not (e : Expr) : e.ReadsWithin (.not e) :=
  ⟨fun c hc => by simpa [columnsRead] using hc, fun k hk => by simpa [Expr.operands] using hk⟩

theorem not_readsWithin (e : Expr) : (Expr.not e).ReadsWithin e :=
  ⟨fun c hc => by simpa [columnsRead] using hc, fun k hk => by simpa [Expr.operands] using hk⟩

/-! ### Conjuncts -/

theorem readsWithin_of_mem_conjuncts (e : Expr) : ∀ c ∈ e.conjuncts, c.ReadsWithin e := by
  fun_induction conjuncts e with
  | case1 l r ihl ihr =>
    intro c hc
    rcases List.mem_append.mp hc with hc | hc
    · exact (ihl c hc).trans (readsWithin_and_left l r)
    · exact (ihr c hc).trans (readsWithin_and_right l r)
  | case2 e _ =>
    intro c hc
    rw [List.mem_singleton.mp hc]
    exact .refl e

/-- **A predicate accepts a row if all its conjuncts do.** -/
theorem all_accepts_conjuncts (row : Row) (b : Bindings) (e : Expr) :
    e.conjuncts.all (accepts row b) = e.accepts row b := by
  fun_induction conjuncts e with
  | case1 l r ihl ihr => rw [List.all_append, ihl, ihr, accepts_and]
  | case2 e _ => simp

theorem accepts_foldl_and (es : List Expr) : ∀ e : Expr,
    (es.foldl .and e).accepts row b = (e.accepts row b && es.all (accepts row b)) := by
  induction es with
  | nil => simp
  | cons c es ih =>
    intro e
    rw [List.foldl_cons, ih, accepts_and, List.all_cons, Bool.and_assoc]

theorem accepts_conjunction {es : List Expr} {e : Expr} (h : conjunction es = some e) :
    e.accepts row b = es.all (accepts row b) := by
  cases es with
  | nil => simp [conjunction] at h
  | cons c es =>
    obtain rfl := Option.some.inj h
    rw [accepts_foldl_and, List.all_cons]

theorem eq_nil_of_conjunction {es : List Expr} (h : conjunction es = none) : es = [] := by
  cases es with
  | nil => rfl
  | cons c es => cases h

/-! ### Trying conjuncts in turn -/

/-- Whether all of several predicates hold, tried from the left; the first that does not hold
settles it. -/
def holdAll (row : Row) (b : Bindings) : List Expr → Except Fault Bool
  | [] => .ok true
  | e :: es => do if ← e.holds row b then holdAll row b es else return false

theorem holds_foldl_and (es : List Expr) : ∀ e : Expr,
    (es.foldl .and e).holds row b = holdAll row b (e :: es) := by
  induction es with
  | nil =>
    intro e
    rw [List.foldl_nil, holdAll]
    cases e.holds row b with
    | error f => rfl
    | ok x => cases x <;> rfl
  | cons c es ih =>
    intro e
    rw [List.foldl_cons, ih, holdAll, holds_and, holdAll]
    cases e.holds row b with
    | error f => rfl
    | ok x => cases x <;> rfl

theorem holds_conjunction {es : List Expr} {e : Expr} (h : conjunction es = some e) :
    e.holds row b = holdAll row b es := by
  cases es with
  | nil => simp [conjunction] at h
  | cons c es =>
    obtain rfl := Option.some.inj h
    exact holds_foldl_and es c

theorem all_accepts_of_holdAll {es : List Expr} {x : Bool} (h : holdAll row b es = .ok x) :
    es.all (accepts row b) = x := by
  induction es with
  | nil => exact Except.ok.inj h
  | cons e es ih =>
    obtain ⟨y, hy, h⟩ := bind_eq_ok_iff.mp h
    rw [List.all_cons, accepts_of_holds hy]
    cases y with
    | false => exact Except.ok.inj h
    | true => exact ih h

theorem exists_holdAll {es : List Expr} (h : ∀ e ∈ es, e.Decided row b) :
    ∃ x, holdAll row b es = .ok x := by
  induction es with
  | nil => exact ⟨true, rfl⟩
  | cons e es ih =>
    obtain ⟨x, hx⟩ := h e (by simp)
    rw [holdAll, hx, ok_bind]
    cases x with
    | false => exact ⟨false, rfl⟩
    | true => exact ih fun c hc => h c (by simp [hc])

/-- Predicates that hold can be left out. -/
theorem holdAll_filter {f : Expr → Bool} {es : List Expr}
    (h : ∀ e ∈ es, f e = false → e.holds row b = .ok true) :
    holdAll row b (es.filter f) = holdAll row b es := by
  induction es with
  | nil => rfl
  | cons e es ih =>
    have hrest := ih fun c hc => h c (by simp [hc])
    cases hf : f e with
    | true => rw [List.filter_cons_of_pos hf, holdAll, holdAll, hrest]
    | false =>
      rw [List.filter_cons_of_neg (by simp [hf]), hrest, holdAll, h e (by simp) hf]
      rfl

/-- A fault of several predicates is one of them. -/
theorem exists_error_of_holdAll {es : List Expr} {f : Fault} (h : holdAll row b es = .error f) :
    ∃ e ∈ es, e.eval row b = .error f := by
  induction es with
  | nil => cases h
  | cons e es ih =>
    rcases bind_eq_error_iff.mp h with h | ⟨x, _, h⟩
    · rcases bind_eq_error_iff.mp h with h | ⟨v, _, h⟩
      · exact ⟨e, by simp, h⟩
      · cases h
    · cases x with
      | false => cases h
      | true =>
        obtain ⟨c, hc, h⟩ := ih h
        exact ⟨c, by simp [hc], h⟩

end Expr

/-! ### Clauses -/

namespace Dnf

theorem any_all_map_append (f : Expr → Bool) (l : List Expr) (right : List (List Expr)) :
    ((right.map fun r => l ++ r).any fun c => c.all f) =
      (l.all f && right.any fun c => c.all f) := by
  induction right with
  | nil => simp
  | cons r right ih =>
    rw [List.map_cons, List.any_cons, List.any_cons, ih, List.all_append, Bool.and_or_distrib_left]

/-- A clause of a product is satisfied if it is made of two that are. -/
theorem any_all_product (f : Expr → Bool) (left right : List (List Expr)) :
    ((product left right).any fun c => c.all f) =
      ((left.any fun c => c.all f) && right.any fun c => c.all f) := by
  induction left with
  | nil => rfl
  | cons l left ih =>
    have hcons : product (l :: left) right = (right.map fun r => l ++ r) ++ product left right := by
      rw [product, List.flatMap_cons]
      rfl
    rw [hcons, List.any_append, any_all_map_append, ih, List.any_cons, Bool.and_or_distrib_right]

theorem eq_product_of_allOf {budget : Nat} {left right clauses : List (List Expr)}
    (h : allOf budget left right = .ok clauses) : clauses = product left right := by
  unfold allOf at h
  split at h
  · cases h
  · exact (Except.ok.inj h).symm

theorem eq_append_of_anyOf {budget : Nat} {left right clauses : List (List Expr)}
    (h : anyOf budget left right = .ok clauses) : clauses = left ++ right := by
  unfold anyOf at h
  split at h
  · cases h
  · exact (Except.ok.inj h).symm

theorem any_all_allOf (f : Expr → Bool) {budget : Nat} {left right clauses : List (List Expr)}
    (h : allOf budget left right = .ok clauses) : (clauses.any fun c => c.all f) =
      ((left.any fun c => c.all f) && right.any fun c => c.all f) := by
  rw [eq_product_of_allOf h, any_all_product]

theorem any_all_anyOf (f : Expr → Bool) {budget : Nat} {left right clauses : List (List Expr)}
    (h : anyOf budget left right = .ok clauses) : (clauses.any fun c => c.all f) =
      ((left.any fun c => c.all f) || right.any fun c => c.all f) := by
  rw [eq_append_of_anyOf h, List.any_append]

theorem forall_mem_product {P : Expr → Prop} {left right clauses : List (List Expr)}
    (h : clauses = product left right) (hl : ∀ clause ∈ left, ∀ c ∈ clause, P c)
    (hr : ∀ clause ∈ right, ∀ c ∈ clause, P c) : ∀ clause ∈ clauses, ∀ c ∈ clause, P c := by
  intro clause hclause c hc
  rw [h, product, List.mem_flatMap] at hclause
  obtain ⟨l, hlm, hclause⟩ := hclause
  obtain ⟨r, hrm, rfl⟩ := List.mem_map.mp hclause
  exact (List.mem_append.mp hc).elim (hl l hlm c) (hr r hrm c)

theorem forall_mem_append {P : Expr → Prop} {left right clauses : List (List Expr)}
    (h : clauses = left ++ right) (hl : ∀ clause ∈ left, ∀ c ∈ clause, P c)
    (hr : ∀ clause ∈ right, ∀ c ∈ clause, P c) : ∀ clause ∈ clauses, ∀ c ∈ clause, P c := by
  intro clause hclause c hc
  rw [h] at hclause
  exact (List.mem_append.mp hclause).elim (fun hm => hl clause hm c hc) fun hm => hr clause hm c hc

/-- **The answer of a predicate, or of its negation, is whether all parts of one of its clauses are
accepted.**  Parts that were not needed for the answer may fail. -/
theorem any_accepts_of_holds {row : Row} {b : Bindings} (budget : Nat) (negated : Bool) (e : Expr) :
    ∀ clauses x, e.holds row b = .ok x → expand budget negated e = .ok clauses →
      (clauses.any fun c => c.all (Expr.accepts row b)) = (x != negated) := by
  fun_induction expand budget negated e with
  | case1 negated e ih =>
    intro clauses x hx h
    rw [Expr.holds_not] at hx
    obtain ⟨y, hy, hx⟩ := bind_eq_ok_iff.mp hx
    obtain rfl := Except.ok.inj hx
    rw [ih clauses y hy h]
    cases y <;> cases negated <;> rfl
  | case2 negated l r ihl ihr =>
    intro clauses x hx h
    obtain ⟨left, hl, h⟩ := bind_eq_ok_iff.mp h
    obtain ⟨right, hr, h⟩ := bind_eq_ok_iff.mp h
    rw [Expr.holds_and] at hx
    obtain ⟨y, hy, hx⟩ := bind_eq_ok_iff.mp hx
    have hleft := ihl left y hy hl
    cases y with
    | false =>
      -- A false left side settles the conjunction, whatever the clauses on the right say.
      obtain rfl := Except.ok.inj hx
      cases negated with
      | false => rw [any_all_allOf _ h, hleft]; rfl
      | true => rw [any_all_anyOf _ h, hleft]; rfl
    | true =>
      have hright := ihr right x hx hr
      cases negated with
      | false => rw [any_all_allOf _ h, hleft, hright]; rfl
      | true => rw [any_all_anyOf _ h, hleft, hright]; rfl
  | case3 negated l r ihl ihr =>
    intro clauses x hx h
    obtain ⟨left, hl, h⟩ := bind_eq_ok_iff.mp h
    obtain ⟨right, hr, h⟩ := bind_eq_ok_iff.mp h
    rw [Expr.holds_or] at hx
    obtain ⟨y, hy, hx⟩ := bind_eq_ok_iff.mp hx
    have hleft := ihl left y hy hl
    cases y with
    | true =>
      obtain rfl := Except.ok.inj hx
      cases negated with
      | false => rw [any_all_anyOf _ h, hleft]; rfl
      | true => rw [any_all_allOf _ h, hleft]; rfl
    | false =>
      have hright := ihr right x hx hr
      cases negated with
      | false => rw [any_all_anyOf _ h, hleft, hright]; rfl
      | true => rw [any_all_allOf _ h, hleft, hright]; rfl
  | case4 negated leaf _ _ _ =>
    intro clauses x hx h
    obtain rfl := Except.ok.inj h
    cases negated with
    | false => simp [Expr.accepts_of_holds hx]
    | true =>
      have hnot : (Expr.not leaf).holds row b = .ok !x := by rw [Expr.holds_not, hx]; rfl
      simp [Expr.accepts_of_holds hnot]

/-- The parts of a clause read no more than the predicate. -/
theorem readsWithin_of_mem_expand (budget : Nat) (negated : Bool) (e : Expr) :
    ∀ clauses, expand budget negated e = .ok clauses → ∀ clause ∈ clauses, ∀ c ∈ clause,
      c.ReadsWithin e := by
  -- Clauses are joined from those of the parts, and a part reads no more than the whole.
  fun_induction expand budget negated e with
  | case1 negated e ih =>
    intro clauses h clause hclause c hc
    exact (ih clauses h clause hclause c hc).trans (Expr.readsWithin_not e)
  | case2 negated l r ihl ihr =>
    intro clauses h clause hclause c hc
    obtain ⟨left, hl, h⟩ := bind_eq_ok_iff.mp h
    obtain ⟨right, hr, h⟩ := bind_eq_ok_iff.mp h
    have hleft : ∀ clause ∈ left, ∀ c ∈ clause, c.ReadsWithin (.and l r) := fun cl hcl c hc =>
      (ihl left hl cl hcl c hc).trans (Expr.readsWithin_and_left l r)
    have hright : ∀ clause ∈ right, ∀ c ∈ clause, c.ReadsWithin (.and l r) := fun cl hcl c hc =>
      (ihr right hr cl hcl c hc).trans (Expr.readsWithin_and_right l r)
    -- Under a negation a conjunction is expanded as a disjunction.
    cases negated with
    | false => exact forall_mem_product (eq_product_of_allOf h) hleft hright clause hclause c hc
    | true => exact forall_mem_append (eq_append_of_anyOf h) hleft hright clause hclause c hc
  | case3 negated l r ihl ihr =>
    intro clauses h clause hclause c hc
    obtain ⟨left, hl, h⟩ := bind_eq_ok_iff.mp h
    obtain ⟨right, hr, h⟩ := bind_eq_ok_iff.mp h
    have hleft : ∀ clause ∈ left, ∀ c ∈ clause, c.ReadsWithin (.or l r) := fun cl hcl c hc =>
      (ihl left hl cl hcl c hc).trans (Expr.readsWithin_or_left l r)
    have hright : ∀ clause ∈ right, ∀ c ∈ clause, c.ReadsWithin (.or l r) := fun cl hcl c hc =>
      (ihr right hr cl hcl c hc).trans (Expr.readsWithin_or_right l r)
    cases negated with
    | false => exact forall_mem_append (eq_append_of_anyOf h) hleft hright clause hclause c hc
    | true => exact forall_mem_product (eq_product_of_allOf h) hleft hright clause hclause c hc
  | case4 negated leaf _ _ _ =>
    intro clauses h clause hclause c hc
    obtain rfl := Except.ok.inj h
    rw [List.mem_singleton] at hclause
    subst hclause
    rw [List.mem_singleton] at hc
    subst hc
    cases negated with
    | false => exact .refl leaf
    | true => exact Expr.not_readsWithin leaf

end Dnf

end QueryPlanner
