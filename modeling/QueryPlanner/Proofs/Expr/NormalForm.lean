import Mathlib.Data.Set.Basic
import QueryPlanner.Proofs.Expr.Clauses

/-!
# Normal forms of predicates

Expanding a predicate carries negations down to its leaves and distributes conjunctions over
disjunctions.  How many clauses that gives can be counted without expanding: conjunctions multiply
and disjunctions add, and a negation makes each of them the other.  Every part of a predicate has at
least one clause, so no part has more clauses than the whole, and a step exceeds the budget only if
the whole does.  A leaf is never measured against the budget.

The normal form answers as the predicate does wherever both have an answer.  It may try leaves that
the predicate would not have needed, and the other way round, so either can fail alone.

## Main definitions

* `Expr.leaves` — the parts of a predicate below its connectives.
* `Dnf.clauseCount` — the number of clauses of a predicate, or of its negation.
* `Dnf.ClausesOf` — so many clauses made of some leaves and their negations.
* `Dnf.Outcome` — what expanding a predicate comes to within a budget.

## Main results

* `Dnf.clausesOf_expand` — the clauses are as many as counted, and made of the leaves.
* `Dnf.outcome_expand` — expanding gives the counted clauses, or exceeds the budget.
* `Dnf.normalize_within_budget` — **the budget is exact, and clauses hold leaves and negated leaves
  only**.
* `Dnf.holds_toExpr?_normalize` — **the normal form means what the predicate means**.
-/

namespace QueryPlanner

namespace Expr

variable {row : Row} {b : Bindings}

/-! ### Leaves -/

/-- Whether an expression is no connective. -/
def isLeaf : Expr → Bool
  | .and _ _ => false
  | .or _ _ => false
  | .not _ => false
  | _ => true

/-- Whether an expression is a leaf under any number of negations. -/
def isSingle : Expr → Bool
  | .not e => e.isSingle
  | e => e.isLeaf

/-- The parts of a predicate below its connectives, from the left. -/
def leaves : Expr → List Expr
  | .and l r => l.leaves ++ r.leaves
  | .or l r => l.leaves ++ r.leaves
  | .not e => e.leaves
  | leaf => [leaf]

theorem isLeaf_of_ne {e : Expr} (hnot : ∀ i, e ≠ .not i) (hand : ∀ l r, e ≠ .and l r)
    (hor : ∀ l r, e ≠ .or l r) : e.isLeaf := by
  cases e with
  | not i => exact absurd rfl (hnot i)
  | and l r => exact absurd rfl (hand l r)
  | or l r => exact absurd rfl (hor l r)
  | _ => rfl

theorem leaves_of_isLeaf {e : Expr} (h : e.isLeaf) : e.leaves = [e] := by
  cases e <;> first | rfl | cases h

theorem isSingle_of_isLeaf {e : Expr} (h : e.isLeaf) : e.isSingle := by
  cases e <;> first | rfl | cases h

theorem isLeaf_of_mem_leaves (e : Expr) : ∀ leaf ∈ e.leaves, leaf.isLeaf := by
  fun_induction leaves e with
  | case1 l r ihl ihr => exact fun leaf h => (List.mem_append.mp h).elim (ihl leaf) (ihr leaf)
  | case2 l r ihl ihr => exact fun leaf h => (List.mem_append.mp h).elim (ihl leaf) (ihr leaf)
  | case3 e ih => exact ih
  | case4 e hand hor hnot =>
    intro leaf h
    rw [List.mem_singleton.mp h]
    exact isLeaf_of_ne hnot hand hor

/-- A predicate has an answer if all its leaves have one. -/
theorem decided_of_leaves (e : Expr) :
    (∀ leaf ∈ e.leaves, leaf.Decided row b) → e.Decided row b := by
  fun_induction leaves e with
  | case1 l r ihl ihr =>
    intro h
    exact (ihl fun leaf hl => h leaf (by simp [hl])).and (ihr fun leaf hl => h leaf (by simp [hl]))
  | case2 l r ihl ihr =>
    intro h
    exact (ihl fun leaf hl => h leaf (by simp [hl])).or (ihr fun leaf hl => h leaf (by simp [hl]))
  | case3 e ih => exact fun h => (ih h).not
  | case4 e _ _ _ => exact fun h => h e (by simp)

/-- The operands of a predicate are those of its leaves. -/
theorem mem_operands_iff_leaves {k : KeyOperand} (e : Expr) :
    k ∈ e.operands ↔ ∃ leaf ∈ e.leaves, k ∈ leaf.operands := by
  fun_induction leaves e with
  | case1 l r ihl ihr | case2 l r ihl ihr =>
    simp only [operands, List.mem_append, ihl, ihr, or_and_right, exists_or]
  | case3 e ih => exact ih
  | case4 e _ _ _ => simp

/-! ### Disjunctions of lists -/

theorem decided_foldl_or (es : List Expr) : ∀ e : Expr, e.Decided row b →
    (∀ c ∈ es, c.Decided row b) → (es.foldl .or e).Decided row b := by
  induction es with
  | nil => intro e he _; exact he
  | cons c es ih =>
    intro e he hes
    exact ih _ (he.or (hes c (by simp))) fun d hd => hes d (by simp [hd])

/-- A disjunction with an answer has tried its first part, and answers whether some part is
accepted. -/
theorem accepts_foldl_or (es : List Expr) : ∀ e : Expr, (es.foldl .or e).Decided row b →
    e.Decided row b ∧
      (es.foldl .or e).accepts row b = (e.accepts row b || es.any (accepts row b)) := by
  induction es with
  | nil => intro e h; exact ⟨h, by simp⟩
  | cons c es ih =>
    intro e h
    obtain ⟨hor, haccepts⟩ := ih (.or e c) h
    obtain ⟨x, hx⟩ := hor
    -- The left side of a disjunction with an answer has one too.
    rw [holds_or] at hx
    obtain ⟨y, hy, hx⟩ := bind_eq_ok_iff.mp hx
    have hboth : (Expr.or e c).accepts row b = (e.accepts row b || c.accepts row b) := by
      rw [accepts_of_holds (by rw [holds_or, hy]; exact hx), accepts_of_holds hy]
      cases y with
      | true => exact (Except.ok.inj hx).symm
      | false => exact (accepts_of_holds hx).symm
    exact ⟨⟨y, hy⟩, by rw [List.foldl_cons, haccepts, hboth, List.any_cons, Bool.or_assoc]⟩

end Expr

namespace Dnf

/-! ### Counting clauses -/

/-- The number of clauses of a predicate, or of its negation: conjunctions multiply, disjunctions
add, and a negation makes each of them the other. -/
def clauseCount : Bool → Expr → Nat
  | negated, .not e => clauseCount (!negated) e
  | negated, .and l r =>
    if negated then clauseCount negated l + clauseCount negated r
    else clauseCount negated l * clauseCount negated r
  | negated, .or l r =>
    if negated then clauseCount negated l * clauseCount negated r
    else clauseCount negated l + clauseCount negated r
  | _, _ => 1

theorem clauseCount_of_isLeaf {e : Expr} (h : e.isLeaf) (negated : Bool) :
    clauseCount negated e = 1 := by
  cases e <;> first | rfl | cases h

theorem one_le_clauseCount (negated : Bool) (e : Expr) : 1 ≤ clauseCount negated e := by
  -- Clauses are counted along the connectives, as leaves are collected.
  fun_induction Expr.leaves e generalizing negated with
  | case1 l r ihl ihr =>
    have hl := ihl negated
    have hr := ihr negated
    rw [clauseCount]
    split
    · omega
    · exact Nat.mul_pos hl hr
  | case2 l r ihl ihr =>
    have hl := ihl negated
    have hr := ihr negated
    rw [clauseCount]
    split
    · exact Nat.mul_pos hl hr
    · omega
  | case3 e ih => exact ih (!negated)
  | case4 e hand hor hnot => rw [clauseCount_of_isLeaf (Expr.isLeaf_of_ne hnot hand hor)]

theorem length_product (left right : List (List Expr)) :
    (product left right).length = left.length * right.length := by
  induction left with
  | nil => simp [product]
  | cons l left ih =>
    have hstep : product (l :: left) right = (right.map fun r => l ++ r) ++ product left right :=
      rfl
    rw [hstep, List.length_append, List.length_map, ih, List.length_cons,
      Nat.succ_mul, Nat.add_comm]

/-! ### Clauses made of leaves -/

/-- So many clauses made of some leaves and their negations: no clause is empty, and every leaf
occurs. -/
structure ClausesOf (ls : List Expr) (count : Nat) (clauses : List (List Expr)) : Prop where
  length_eq : clauses.length = count
  nonempty : ∀ clause ∈ clauses, clause ≠ []
  signed : ∀ clause ∈ clauses, ∀ part ∈ clause, ∃ leaf ∈ ls, part = leaf ∨ part = .not leaf
  occurs : ∀ leaf ∈ ls, ∃ clause ∈ clauses, ∃ part ∈ clause, part = leaf ∨ part = .not leaf

namespace ClausesOf

variable {ls rs : List Expr} {m n : Nat} {left right : List (List Expr)}

theorem product (hl : ClausesOf ls m left) (hr : ClausesOf rs n right) (hm : 1 ≤ m) (hn : 1 ≤ n) :
    ClausesOf (ls ++ rs) (m * n) (product left right) := by
  have hmem : ∀ {clause}, clause ∈ Dnf.product left right ↔
      ∃ l ∈ left, ∃ r ∈ right, l ++ r = clause := by
    simp [Dnf.product]
  constructor
  · rw [length_product, hl.length_eq, hr.length_eq]
  · intro clause hclause
    obtain ⟨l, hlm, r, _, rfl⟩ := hmem.mp hclause
    exact List.append_ne_nil_of_left_ne_nil (hl.nonempty l hlm) r
  · intro clause hclause part hpart
    obtain ⟨l, hlm, r, hrm, rfl⟩ := hmem.mp hclause
    rcases List.mem_append.mp hpart with hpart | hpart
    · obtain ⟨leaf, hleaf, heq⟩ := hl.signed l hlm part hpart
      exact ⟨leaf, List.mem_append_left _ hleaf, heq⟩
    · obtain ⟨leaf, hleaf, heq⟩ := hr.signed r hrm part hpart
      exact ⟨leaf, List.mem_append_right _ hleaf, heq⟩
  · -- A clause that holds the leaf on one side goes with some clause on the other.
    intro leaf hleaf
    rcases List.mem_append.mp hleaf with hleaf | hleaf
    · obtain ⟨l, hlm, part, hpart, heq⟩ := hl.occurs leaf hleaf
      obtain ⟨r, hrm⟩ := List.exists_mem_of_length_pos (hr.length_eq ▸ hn)
      exact ⟨l ++ r, hmem.mpr ⟨l, hlm, r, hrm, rfl⟩, part, List.mem_append_left _ hpart, heq⟩
    · obtain ⟨r, hrm, part, hpart, heq⟩ := hr.occurs leaf hleaf
      obtain ⟨l, hlm⟩ := List.exists_mem_of_length_pos (hl.length_eq ▸ hm)
      exact ⟨l ++ r, hmem.mpr ⟨l, hlm, r, hrm, rfl⟩, part, List.mem_append_right _ hpart, heq⟩

theorem append (hl : ClausesOf ls m left) (hr : ClausesOf rs n right) :
    ClausesOf (ls ++ rs) (m + n) (left ++ right) := by
  constructor
  · rw [List.length_append, hl.length_eq, hr.length_eq]
  · exact fun clause hclause =>
      (List.mem_append.mp hclause).elim (hl.nonempty clause) (hr.nonempty clause)
  · intro clause hclause part hpart
    rcases List.mem_append.mp hclause with hclause | hclause
    · obtain ⟨leaf, hleaf, heq⟩ := hl.signed clause hclause part hpart
      exact ⟨leaf, List.mem_append_left _ hleaf, heq⟩
    · obtain ⟨leaf, hleaf, heq⟩ := hr.signed clause hclause part hpart
      exact ⟨leaf, List.mem_append_right _ hleaf, heq⟩
  · intro leaf hleaf
    rcases List.mem_append.mp hleaf with hleaf | hleaf
    · obtain ⟨clause, hclause, h⟩ := hl.occurs leaf hleaf
      exact ⟨clause, List.mem_append_left _ hclause, h⟩
    · obtain ⟨clause, hclause, h⟩ := hr.occurs leaf hleaf
      exact ⟨clause, List.mem_append_right _ hclause, h⟩

theorem single (leaf : Expr) (negated : Bool) :
    ClausesOf [leaf] 1 [[if negated then .not leaf else leaf]] := by
  have hsigned : (if negated then Expr.not leaf else leaf) = leaf ∨
      (if negated then Expr.not leaf else leaf) = .not leaf := by
    cases negated
    · exact Or.inl rfl
    · exact Or.inr rfl
  constructor
  · rfl
  · simp
  · intro clause hclause part hpart
    rw [List.mem_singleton.mp hclause, List.mem_singleton] at hpart
    exact ⟨leaf, by simp, hpart ▸ hsigned⟩
  · intro leaf' hleaf'
    rw [List.mem_singleton.mp hleaf']
    exact ⟨_, List.mem_singleton.mpr rfl, _, List.mem_singleton.mpr rfl, hsigned⟩

end ClausesOf

/-- **The clauses of a predicate are as many as counted, and made of its leaves.** -/
theorem clausesOf_expand (budget : Nat) (negated : Bool) (e : Expr) : ∀ clauses,
    expand budget negated e = .ok clauses → ClausesOf e.leaves (clauseCount negated e) clauses := by
  fun_induction expand budget negated e with
  | case1 negated e ih => exact ih
  | case2 negated l r ihl ihr =>
    intro clauses h
    obtain ⟨left, hl, h⟩ := bind_eq_ok_iff.mp h
    obtain ⟨right, hr, h⟩ := bind_eq_ok_iff.mp h
    -- A conjunction joins clauses pairwise, and a negated one collects them.
    cases negated with
    | false =>
      rw [eq_product_of_allOf h]
      exact (ihl left hl).product (ihr right hr) (one_le_clauseCount _ l) (one_le_clauseCount _ r)
    | true =>
      rw [eq_append_of_anyOf h]
      exact (ihl left hl).append (ihr right hr)
  | case3 negated l r ihl ihr =>
    intro clauses h
    obtain ⟨left, hl, h⟩ := bind_eq_ok_iff.mp h
    obtain ⟨right, hr, h⟩ := bind_eq_ok_iff.mp h
    -- A disjunction is the other way round.
    cases negated with
    | false =>
      rw [eq_append_of_anyOf h]
      exact (ihl left hl).append (ihr right hr)
    | true =>
      rw [eq_product_of_allOf h]
      exact (ihl left hl).product (ihr right hr) (one_le_clauseCount _ l) (one_le_clauseCount _ r)
  | case4 negated leaf hnot hand hor =>
    intro clauses h
    have hleaf := Expr.isLeaf_of_ne hnot hand hor
    rw [Expr.leaves_of_isLeaf hleaf, clauseCount_of_isLeaf hleaf, ← Except.ok.inj h]
    exact .single leaf negated

/-! ### The budget -/

/-- What expanding a predicate of `count` clauses comes to: they are made if the budget allows for
them, or if there is nothing to put together. -/
inductive Outcome (budget count : Nat) (isSingle : Bool) :
    Except BudgetExceeded (List (List Expr)) → Prop
  | fits {clauses : List (List Expr)} (hfits : count ≤ budget ∨ isSingle)
      (hcount : clauses.length = count) : Outcome budget count isSingle (.ok clauses)
  | exceeds (hexceeds : ¬ (count ≤ budget ∨ isSingle)) :
      Outcome budget count isSingle (.error ⟨budget⟩)

namespace Outcome

variable {budget m n : Nat} {s t : Bool} {x y : Except BudgetExceeded (List (List Expr))}

/-- A conjunction has at least as many clauses as each of its parts, so the budget of a part is
exceeded only if that of the whole is. -/
theorem allOf (hbudget : budget < maxCount) (hm : 1 ≤ m) (hn : 1 ≤ n) (hx : Outcome budget m s x)
    (hy : Outcome budget n t y) : Outcome budget (m * n) false (do allOf budget (← x) (← y)) := by
  have hleft : m ≤ m * n := Nat.le_mul_of_pos_right m hn
  have hright : n ≤ m * n := Nat.le_mul_of_pos_left n hm
  cases hx with
  | exceeds hexceeds => exact .exceeds (by simp at hexceeds ⊢; omega)
  | @fits left _ hl =>
    cases hy with
    | exceeds hexceeds => exact .exceeds (by simp at hexceeds ⊢; omega)
    | @fits right _ hr =>
      show Outcome _ _ _ (Dnf.allOf budget left right)
      unfold Dnf.allOf
      rw [hl, hr]
      by_cases hfits : m * n ≤ budget
      · rw [if_neg (by omega)]
        exact .fits (Or.inl hfits) (by rw [length_product, hl, hr])
      · -- The count stops growing only above the budget.
        rw [if_pos (by omega)]
        exact .exceeds (by simpa using hfits)

theorem anyOf (hx : Outcome budget m s x) (hy : Outcome budget n t y) (hm : 1 ≤ m) (hn : 1 ≤ n) :
    Outcome budget (m + n) false (do anyOf budget (← x) (← y)) := by
  cases hx with
  | exceeds hexceeds => exact .exceeds (by simp at hexceeds ⊢; omega)
  | @fits left _ hl =>
    cases hy with
    | exceeds hexceeds => exact .exceeds (by simp at hexceeds ⊢; omega)
    | @fits right _ hr =>
      show Outcome _ _ _ (Dnf.anyOf budget left right)
      unfold Dnf.anyOf
      rw [hl, hr]
      by_cases hfits : m + n ≤ budget
      · rw [if_neg (by omega)]
        exact .fits (Or.inl hfits) (by rw [List.length_append, hl, hr])
      · rw [if_pos (by omega)]
        exact .exceeds (by simpa using hfits)

end Outcome

/-- **Expanding a predicate gives the counted clauses, or exceeds the budget.** -/
theorem outcome_expand {budget : Nat} (hbudget : budget < maxCount) (negated : Bool) (e : Expr) :
    Outcome budget (clauseCount negated e) e.isSingle (expand budget negated e) := by
  fun_induction expand budget negated e with
  | case1 negated e ih => exact ih
  | case2 negated l r ihl ihr =>
    have hl := one_le_clauseCount negated l
    have hr := one_le_clauseCount negated r
    -- The bound on the product needs both counts to be positive.
    cases negated with
    | false => exact .allOf hbudget hl hr ihl ihr
    | true => exact .anyOf ihl ihr hl hr
  | case3 negated l r ihl ihr =>
    have hl := one_le_clauseCount negated l
    have hr := one_le_clauseCount negated r
    cases negated with
    | false => exact .anyOf ihl ihr hl hr
    | true => exact .allOf hbudget hl hr ihl ihr
  | case4 negated leaf hnot hand hor =>
    have hleaf := Expr.isLeaf_of_ne hnot hand hor
    exact .fits (Or.inr (Expr.isSingle_of_isLeaf hleaf)) (clauseCount_of_isLeaf hleaf negated).symm

/-- **The budget is exact.**  A predicate has a normal form if its clauses, counted beforehand, are
within the budget, or if it is a leaf under any number of negations; then it has as many clauses as
counted, each with at least one part, and every part is a leaf of the predicate or the negation of
one.  Otherwise the error tells the budget. -/
theorem normalize_within_budget (p : Expr) (budget : Nat) (hbudget : budget < maxCount) :
    ((∃ d, normalize p budget = .ok d) ↔ clauseCount false p ≤ budget ∨ p.isSingle) ∧
    (∀ d, normalize p budget = .ok d → d.clauses.length = clauseCount false p ∧
      ∀ clause ∈ d.clauses, clause ≠ [] ∧
        ∀ part ∈ clause, ∃ leaf ∈ p.leaves, leaf.isLeaf ∧ (part = leaf ∨ part = .not leaf)) ∧
    ∀ e, normalize p budget = .error e → e = ⟨budget⟩ := by
  have houtcome := outcome_expand hbudget false p
  have hclauses := clausesOf_expand budget false p
  unfold normalize
  -- Both lemmas speak of the same expansion, which either fits or exceeds the budget.
  generalize expand budget false p = x at houtcome hclauses
  cases houtcome with
  | @fits clauses hfits hcount =>
    refine ⟨⟨fun _ => hfits, fun _ => ⟨⟨clauses⟩, rfl⟩⟩, fun d hd => ?_, fun e he => by cases he⟩
    obtain rfl := Except.ok.inj hd
    have hof := hclauses clauses rfl
    refine ⟨hcount, fun clause hclause => ⟨hof.nonempty clause hclause, fun part hpart => ?_⟩⟩
    obtain ⟨leaf, hleaf, hpart⟩ := hof.signed clause hclause part hpart
    exact ⟨leaf, hleaf, p.isLeaf_of_mem_leaves leaf hleaf, hpart⟩
  | exceeds hexceeds =>
    refine ⟨⟨?_, fun h => absurd h hexceeds⟩, ?_, fun e he => (Except.error.inj he).symm⟩
    · rintro ⟨d, hd⟩
      cases hd
    · intro d hd
      cases hd

/-- Two choices and a negated conjunction make four clauses: one less is not enough for them.  A
leaf under two negations needs no budget. -/
theorem normalize_within_budget_choices :
    let p : Expr := .and (.or (.isNull (.column 0)) (.column 1))
      (.not (.and (.column 2) (.isNull (.column 3))))
    clauseCount false p = 4 ∧ normalize p 3 = .error ⟨3⟩ ∧
      (∃ d, normalize p 4 = .ok d ∧ d.clauses.length = 4 ∧ ∀ clause ∈ d.clauses, clause ≠ []) ∧
      ∃ d, normalize (.not (.not (.column 1))) 0 = .ok d ∧ d.clauses.length = 1 := by
  intro p
  have hcount : clauseCount false p = 4 := rfl
  obtain ⟨hthree, -, herror⟩ := normalize_within_budget p 3 (by decide)
  obtain ⟨hfour, hclauses, -⟩ := normalize_within_budget p 4 (by decide)
  obtain ⟨hzero, hsingle, -⟩ := normalize_within_budget (.not (.not (.column 1))) 0 (by decide)
  refine ⟨hcount, ?_, ?_, ?_⟩
  · -- Four clauses do not fit into a budget of three.
    cases h : normalize p 3 with
    | ok d => exact absurd (hthree.mp ⟨d, h⟩) (by decide)
    | error e => rw [herror e h]
  · obtain ⟨d, hd⟩ := hfour.mpr (Or.inl (by decide))
    obtain ⟨hlength, hparts⟩ := hclauses d hd
    exact ⟨d, hd, hlength, fun clause hclause => (hparts clause hclause).1⟩
  · -- A single clause is never over the budget, not even over none.
    obtain ⟨d, hd⟩ := hzero.mpr (Or.inr rfl)
    exact ⟨d, hd, (hsingle d hd).1⟩

/-! ### Meaning -/

theorem exists_toExpr? {ls : List Expr} {count : Nat} {d : Dnf} (h : ClausesOf ls count d.clauses)
    (hcount : 1 ≤ count) : ∃ e, d.toExpr? = some e := by
  obtain ⟨clause, hclause⟩ := List.exists_mem_of_length_pos (h.length_eq ▸ hcount)
  obtain ⟨c, cs, rfl⟩ := List.exists_cons_of_ne_nil (h.nonempty clause hclause)
  have hmem : cs.foldl .and c ∈ d.clauses.filterMap Expr.conjunction :=
    List.mem_filterMap.mpr ⟨c :: cs, hclause, rfl⟩
  unfold toExpr?
  cases hparts : d.clauses.filterMap Expr.conjunction with
  | nil => simp [hparts] at hmem
  | cons first rest => exact ⟨_, rfl⟩

/-- The answer of a normal form is whether all parts of one of its clauses are accepted. -/
theorem accepts_toExpr? {row : Row} {b : Bindings} {d : Dnf} {e : Expr}
    (hclauses : ∀ clause ∈ d.clauses, clause ≠ []) (h : d.toExpr? = some e) (he : e.Decided row b) :
    e.accepts row b = d.clauses.any fun clause => clause.all (Expr.accepts row b) := by
  -- A clause that is not empty has a conjunction, so no clause is lost.
  have hany : ∀ clauses : List (List Expr), (∀ clause ∈ clauses, clause ≠ []) →
      (clauses.filterMap Expr.conjunction).any (Expr.accepts row b) =
        clauses.any fun clause => clause.all (Expr.accepts row b) := by
    intro clauses
    induction clauses with
    | nil => intro _; rfl
    | cons clause clauses ih =>
      intro hne
      obtain ⟨c, cs, rfl⟩ := List.exists_cons_of_ne_nil (hne clause (by simp))
      have hc : Expr.conjunction (c :: cs) = some (cs.foldl .and c) := rfl
      rw [List.filterMap_cons_some hc, List.any_cons, List.any_cons, Expr.accepts_conjunction hc,
        ih fun clause hclause => hne clause (by simp [hclause])]
  rw [← hany d.clauses hclauses]
  unfold toExpr? at h
  cases hparts : d.clauses.filterMap Expr.conjunction with
  | nil => simp [hparts, Expr.disjunction] at h
  | cons first rest =>
    rw [hparts] at h
    obtain rfl := Option.some.inj h
    rw [(Expr.accepts_foldl_or rest first he).2, List.any_cons]

/-- A normal form whose parts all have an answer has one. -/
theorem decided_toExpr? {row : Row} {b : Bindings} {d : Dnf} {e : Expr} (h : d.toExpr? = some e)
    (hparts : ∀ clause ∈ d.clauses, ∀ part ∈ clause, part.Decided row b) : e.Decided row b := by
  have hclause : ∀ c ∈ d.clauses.filterMap Expr.conjunction, c.Decided row b := by
    intro c hc
    obtain ⟨clause, hclause, hc⟩ := List.mem_filterMap.mp hc
    rw [Expr.Decided, Expr.holds_conjunction hc]
    exact Expr.exists_holdAll (hparts clause hclause)
  unfold toExpr? at h
  cases hd : d.clauses.filterMap Expr.conjunction with
  | nil => simp [hd, Expr.disjunction] at h
  | cons first rest =>
    rw [hd] at h hclause
    obtain rfl := Option.some.inj h
    exact Expr.decided_foldl_or rest first (hclause first (by simp))
      fun c hc => hclause c (by simp [hc])

/-- **The normal form means what the predicate means.**  It can be written as an expression, which
answers as the predicate does on every row where both have an answer; and both have one wherever
every leaf of the predicate has a value. -/
theorem holds_toExpr?_normalize (p : Expr) (budget : Nat) (d : Dnf)
    (h : normalize p budget = .ok d) :
    ∃ e, d.toExpr? = some e ∧ ∀ (row : Row) (b : Bindings),
      (∀ x y, p.holds row b = .ok x → e.holds row b = .ok y → x = y) ∧
      ((∀ leaf ∈ p.leaves, ∃ v, leaf.eval row b = .ok v) →
        ∃ x, p.holds row b = .ok x ∧ e.holds row b = .ok x) := by
  obtain ⟨clauses, hclauses, hd⟩ := bind_eq_ok_iff.mp h
  obtain rfl := Except.ok.inj hd
  have hof := clausesOf_expand budget false p clauses hclauses
  obtain ⟨e, he⟩ := exists_toExpr? hof (one_le_clauseCount false p)
  refine ⟨e, he, fun row b => ?_⟩
  -- Where both have an answer, each is that of the clauses.
  have hsame : ∀ x y, p.holds row b = .ok x → e.holds row b = .ok y → x = y := by
    intro x y hx hy
    rw [← Expr.accepts_of_holds hy, accepts_toExpr? hof.nonempty he ⟨y, hy⟩,
      any_accepts_of_holds budget false p clauses x hx hclauses, Bool.bne_false]
  refine ⟨hsame, fun hleaves => ?_⟩
  have hdecided : ∀ leaf ∈ p.leaves, leaf.Decided row b :=
    fun leaf hleaf => Expr.decided_iff_eval.mpr (hleaves leaf hleaf)
  obtain ⟨x, hx⟩ := p.decided_of_leaves hdecided
  -- Every part of a clause is a leaf or a negated leaf, so it has an answer.
  obtain ⟨y, hy⟩ : e.Decided row b := by
    refine decided_toExpr? he fun clause hclause part hpart => ?_
    obtain ⟨leaf, hleaf, rfl | rfl⟩ := hof.signed clause hclause part hpart
    · exact hdecided part hleaf
    · exact (hdecided leaf hleaf).not
  exact ⟨x, hx, hsame x y hx hy ▸ hy⟩

/-- A negated conjunction over a choice with a parameter.  On a row where nobody asks for the
parameter both answer without it, and with it they answer on every row. -/
theorem holds_toExpr?_normalize_parameter :
    let p : Expr := .not (.and
      (.or (.compare .eq (.column 0) (.literal (.int32 1)))
        (.not (.compare .eq (.column 1) (.parameter "x"))))
      (.isNull (.column 2)))
    let d : Dnf := ⟨[[.not (.compare .eq (.column 0) (.literal (.int32 1))),
      .compare .eq (.column 1) (.parameter "x")], [.not (.isNull (.column 2))]]⟩
    normalize p 2 = .ok d ∧ ∃ e, d.toExpr? = some e ∧
      p.holds [.int32 1, .int32 7, .null] .empty = .ok false ∧
      e.holds [.int32 1, .int32 7, .null] .empty = .ok false ∧
      ∀ u v w : Value, ∃ x, p.holds [u, v, w] ⟨[("x", .int32 2)]⟩ = .ok x ∧
        e.holds [u, v, w] ⟨[("x", .int32 2)]⟩ = .ok x := by
  intro p d
  have hd : normalize p 2 = .ok d := rfl
  obtain ⟨e, he, hmeans⟩ := holds_toExpr?_normalize p 2 d hd
  have hp : p.holds [.int32 1, .int32 7, .null] .empty = .ok false := by decide
  have hdecided : e.Decided [.int32 1, .int32 7, .null] .empty := by
    obtain rfl := Option.some.inj he
    exact ⟨false, by decide⟩
  obtain ⟨y, hy⟩ := hdecided
  refine ⟨hd, e, he, hp, (hmeans _ _).1 false y hp hy ▸ hy,
    fun u v w => (hmeans _ _).2 fun leaf hleaf => ?_⟩
  simp only [p, Expr.leaves, List.cons_append, List.nil_append, List.mem_cons,
    List.not_mem_nil, or_false] at hleaf
  rcases hleaf with rfl | rfl | rfl <;> exact ⟨_, rfl⟩

end Dnf

end QueryPlanner
