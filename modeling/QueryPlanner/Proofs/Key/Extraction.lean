import QueryPlanner.Key.Extraction
import QueryPlanner.Proofs.Expr.Evaluation
import QueryPlanner.Proofs.Key.Conditions

/-!
# What the key condition of a predicate keeps

The condition found in a predicate is compared with the predicate itself on a row.  Under either
polarity, the condition admits the key of every row on which the predicate has the wanted answer.
Where the condition is said to be exact, the predicate has an answer on every row and the condition
admits exactly the keys with the wanted one.

## Main definitions

* `Extraction.Covers` — both statements about one predicate and one row.

## Main results

* `Extraction.covers_ofPolar` — the condition of every predicate, under either polarity, covers it.
* `Extraction.contains_keys_of_holds` — **no row that the predicate keeps is excluded**.
* `Extraction.holds_eq_contains_keys` — **an exact condition stands for its predicate**.
-/

namespace QueryPlanner

open Value (TransitiveOn KeySpace)

/-! ### Operands of conditions -/

namespace KeyCondition

theorem operandsOf_append (cs ds : List KeyCondition) :
    operandsOf (cs ++ ds) = operandsOf cs ++ operandsOf ds := by
  induction cs with
  | nil => rfl
  | cons c cs ih => simp [operandsOf, ih]

theorem operandsOf_allParts (c : KeyCondition) : operandsOf c.allParts = c.operands := by
  cases c <;> simp [allParts, operandsOf, operands]

theorem operandsOf_anyParts (c : KeyCondition) : operandsOf c.anyParts = c.operands := by
  cases c <;> simp [anyParts, operandsOf, operands]

theorem mem_operands_both {c d : KeyCondition} {k : KeyOperand} (h : k ∈ (c.both d).operands) :
    k ∈ c.operands ∨ k ∈ d.operands := by
  unfold both at h
  split at h
  · exact Or.inr h
  · exact Or.inl h
  · simp [operands] at h
  · simp [operands] at h
  · rw [operands, operandsOf_append, operandsOf_allParts, operandsOf_allParts] at h
    exact List.mem_append.mp h

theorem mem_operands_either {c d : KeyCondition} {k : KeyOperand}
    (h : k ∈ (c.either d).operands) : k ∈ c.operands ∨ k ∈ d.operands := by
  unfold either at h
  split at h
  · exact Or.inr h
  · exact Or.inl h
  · simp [operands] at h
  · simp [operands] at h
  · rw [operands, operandsOf_append, operandsOf_anyParts, operandsOf_anyParts] at h
    exact List.mem_append.mp h

end KeyCondition

namespace KeyTest

/-- A test without parameters has an answer on every key. -/
theorem isSome_passes? {b : Bindings} (v : Value) {t : KeyTest} (h : t.readsParameter = false) :
    (t.passes? b v).isSome := by
  have hvalue : ∀ {k : KeyOperand}, k.isParameter = false → (k.value? b).isSome := by
    intro k hk
    cases k with
    | literal w => rfl
    | parameter name => simp [KeyOperand.isParameter] at hk
  cases t with
  | compare op k => simpa [passes?] using hvalue h
  | isNull => rfl
  | startsWith k => simpa [passes?] using hvalue h
  | oneOf ks =>
    simp only [passes?, Option.isSome_map]
    -- All choices are literals, so all of them have values.
    induction ks with
    | nil => simp
    | cons k ks ih =>
      simp only [readsParameter, List.any_cons, Bool.or_eq_false_iff] at h ih
      obtain ⟨w, hw⟩ := Option.isSome_iff_exists.mp (hvalue h.1)
      obtain ⟨ws, hws⟩ := Option.isSome_iff_exists.mp (ih h.2)
      simp [List.mapM_cons, hw, hws]

end KeyTest

namespace Extraction

/-! ### Covering a predicate -/

/-- What the condition found in a predicate says about a row with key `v`, where the predicate, or
its negation, is wanted to hold. -/
structure Covers (row : Row) (b : Bindings) (v : Value) (negated : Bool) (e : Expr)
    (x : Extraction) : Prop where
  /-- A row with the wanted answer has an admitted key. -/
  admits_of_eval : ∀ y, e.eval row b = .ok y → y.isTrue = !negated → x.condition.admits b v
  /-- An exact condition settles the answer, and there is one. -/
  eval_of_isExact : x.isExact → ∃ y, e.eval row b = .ok y ∧
    x.condition.admits b v = (y.isTrue != negated)

variable {row : Row} {b : Bindings} {v : Value} {negated : Bool} {e : Expr}

theorem covers_unconstrained : Covers row b v negated e unconstrained :=
  ⟨fun _ _ _ => rfl, fun h => by simp [unconstrained] at h⟩

/-- A test covers a predicate that has the answer of the test whenever the test has one. -/
theorem covers_ofTest {t : KeyTest}
    (h : ∀ answer, t.passes? b v = some answer → ∃ y, e.eval row b = .ok y ∧ y.isTrue = answer) :
    Covers row b v negated e (ofTest t negated) := by
  constructor
  · intro y hy hwant
    simp only [ofTest, KeyCondition.admits, KeyTest.admits]
    cases hp : t.passes? b v with
    | none => rfl
    | some answer =>
      obtain ⟨y', hy', rfl⟩ := h answer hp
      obtain rfl := Except.ok.inj (hy.symm.trans hy')
      simp [hwant]
  · intro hexact
    have hreads : t.readsParameter = false := by simpa [ofTest] using hexact
    obtain ⟨answer, hp⟩ := Option.isSome_iff_exists.mp (KeyTest.isSome_passes? v hreads)
    obtain ⟨y, hy, rfl⟩ := h answer hp
    exact ⟨y, hy, by simp [ofTest, KeyCondition.admits, KeyTest.admits, hp]⟩

theorem eval_of_isKey {key : Nat} (hrow : row[key]? = some v) {e : Expr} (h : isKey key e) :
    e.eval row b = .ok v := by
  cases e <;> simp [isKey] at h
  subst h
  simp [Expr.eval, Row.column, hrow]

/-- A comparison of the key with an operand, in the order in which it is written. -/
theorem covers_compare {key : Nat} (hrow : row[key]? = some v) (op : CompareOp) {l r : Expr}
    (hl : isKey key l) : Covers row b v negated (.compare op l r) (ofComparison op r negated) := by
  unfold ofComparison
  cases hk : KeyOperand.ofExpr? r with
  | none => exact covers_unconstrained
  | some k =>
    refine covers_ofTest fun answer hp => ?_
    obtain ⟨w, hw, rfl⟩ := Option.map_eq_some_iff.mp hp
    have hr : r.eval row b = .ok w := by
      rw [KeyOperand.eval_of_ofExpr? hk]
      exact KeyOperand.resolve_eq_ok_iff.mpr hw
    exact ⟨_, by rw [Expr.eval, eval_of_isKey hrow hl, ok_bind, hr]; rfl, rfl⟩

/-- A comparison of an operand with the key is one of the key with the operand, turned round. -/
theorem covers_compare_swap {key : Nat} (hrow : row[key]? = some v) (op : CompareOp) {l r : Expr}
    (hr : isKey key r) :
    Covers row b v negated (.compare op l r) (ofComparison op.swap l negated) := by
  unfold ofComparison
  cases hk : KeyOperand.ofExpr? l with
  | none => exact covers_unconstrained
  | some k =>
    refine covers_ofTest fun answer hp => ?_
    obtain ⟨w, hw, rfl⟩ := Option.map_eq_some_iff.mp hp
    have hl : l.eval row b = .ok w := by
      rw [KeyOperand.eval_of_ofExpr? hk]
      exact KeyOperand.resolve_eq_ok_iff.mpr hw
    refine ⟨_, by rw [Expr.eval, hl, ok_bind, eval_of_isKey hrow hr]; rfl, ?_⟩
    exact Value.any_test_compare?_swap op v w

theorem covers_oneOf {key : Nat} (hrow : row[key]? = some v) {e : Expr} (he : isKey key e)
    {choices : List Expr} {ks : List KeyOperand} (hks : choices.mapM KeyOperand.ofExpr? = some ks) :
    Covers row b v negated (.oneOf e choices) (ofTest (.oneOf ks) negated) := by
  refine covers_ofTest fun answer hp => ?_
  obtain ⟨ws, hws, rfl⟩ := Option.map_eq_some_iff.mp hp
  refine ⟨_, by rw [Expr.eval, eval_of_isKey hrow he, ok_bind,
    Expr.matchesAny_operands row v hks hws]; rfl, rfl⟩

theorem covers_startsWith {key : Nat} (hrow : row[key]? = some v) {target argument : Expr}
    (ht : isKey key target) {k : KeyOperand} (hk : KeyOperand.ofExpr? argument = some k) :
    Covers row b v negated (.call .startsWith target argument)
      (ofTest (.startsWith k) negated) := by
  refine covers_ofTest fun answer hp => ?_
  obtain ⟨w, hw, rfl⟩ := Option.map_eq_some_iff.mp hp
  have hr : argument.eval row b = .ok w := by
    rw [KeyOperand.eval_of_ofExpr? hk]
    exact KeyOperand.resolve_eq_ok_iff.mpr hw
  rw [Expr.eval, eval_of_isKey hrow ht, ok_bind, hr, ok_bind]
  cases v.text? <;> cases w.text? <;> exact ⟨_, rfl, rfl⟩

/-- A key that is a truth value is tested for being `true`. -/
theorem isTrue_eq_passes (v : Value) :
    (v.compare? (.bool true)).any CompareOp.eq.test = v.isTrue := by
  cases v with
  | bool x => cases x <;> rfl
  | _ => rfl

theorem covers_not {x : Extraction} (h : Covers row b v (!negated) e x) :
    Covers row b v negated (.not e) x := by
  constructor
  · intro y hy hwant
    rw [Expr.eval] at hy
    obtain ⟨a, ha, hy⟩ := bind_eq_ok_iff.mp hy
    obtain rfl := Except.ok.inj hy
    refine h.admits_of_eval a ha ?_
    simpa [Value.isTrue] using hwant
  · intro hexact
    obtain ⟨a, ha, hadmits⟩ := h.eval_of_isExact hexact
    refine ⟨.bool !a.isTrue, by rw [Expr.eval, ha]; rfl, ?_⟩
    rw [hadmits]
    cases a.isTrue <;> cases negated <;> rfl

theorem covers_and {l r : Expr} {x y : Extraction} (hl : Covers row b v negated l x)
    (hr : Covers row b v negated r y) : Covers row b v negated (.and l r)
      ⟨if negated then x.condition.either y.condition else x.condition.both y.condition,
        x.isExact && y.isExact⟩ := by
  constructor
  · intro z hz hwant
    rw [Expr.eval] at hz
    obtain ⟨a, ha, hz⟩ := bind_eq_ok_iff.mp hz
    have hleft := hl.admits_of_eval a ha
    cases hat : a.isTrue with
    | false =>
      -- A false left side alone settles the conjunction, so the right one may fail.
      rw [hat] at hleft hz
      obtain rfl := Except.ok.inj hz
      cases negated with
      | false => simp [Value.isTrue] at hwant
      | true => simp [hleft rfl]
    | true =>
      rw [hat] at hleft hz
      obtain ⟨c, hc, hz⟩ := bind_eq_ok_iff.mp hz
      obtain rfl := Except.ok.inj hz
      have hright := hr.admits_of_eval c hc hwant
      cases negated with
      | false => simp [hleft rfl, hright]
      | true => simp [hright]
  · intro hexact
    obtain ⟨hx, hy⟩ := Bool.and_eq_true_iff.mp hexact
    obtain ⟨a, ha, hleft⟩ := hl.eval_of_isExact hx
    obtain ⟨c, hc, hright⟩ := hr.eval_of_isExact hy
    refine ⟨.bool (a.isTrue && c.isTrue), ?_, ?_⟩
    · rw [Expr.eval, ha, ok_bind, hc]
      cases a.isTrue <;> rfl
    · cases negated <;> simp [hleft, hright, Value.isTrue]

theorem covers_or {l r : Expr} {x y : Extraction} (hl : Covers row b v negated l x)
    (hr : Covers row b v negated r y) : Covers row b v negated (.or l r)
      ⟨if negated then x.condition.both y.condition else x.condition.either y.condition,
        x.isExact && y.isExact⟩ := by
  constructor
  · intro z hz hwant
    rw [Expr.eval] at hz
    obtain ⟨a, ha, hz⟩ := bind_eq_ok_iff.mp hz
    have hleft := hl.admits_of_eval a ha
    -- The right side has a value only if the left one is not true.
    cases hat : a.isTrue with
    | true =>
      rw [hat] at hleft hz
      obtain rfl := Except.ok.inj hz
      cases negated with
      | true => simp [Value.isTrue] at hwant
      | false => simp [hleft rfl]
    | false =>
      rw [hat] at hleft hz
      obtain ⟨c, hc, hz⟩ := bind_eq_ok_iff.mp hz
      obtain rfl := Except.ok.inj hz
      have hright := hr.admits_of_eval c hc hwant
      cases negated with
      | true => simp [hleft rfl, hright]
      | false => simp [hright]
  · -- If both conditions are exact, both sides have values, and the short cut makes no difference.
    intro hexact
    obtain ⟨hx, hy⟩ := Bool.and_eq_true_iff.mp hexact
    obtain ⟨a, ha, hleft⟩ := hl.eval_of_isExact hx
    obtain ⟨c, hc, hright⟩ := hr.eval_of_isExact hy
    refine ⟨.bool (a.isTrue || c.isTrue), ?_, ?_⟩
    · rw [Expr.eval, ha, ok_bind, hc]
      cases a.isTrue <;> rfl
    · cases negated <;> simp [hleft, hright, Value.isTrue]

theorem covers_literal (x : Bool) : Covers row b v negated (.literal (.bool x))
    ⟨if x != negated then .always else .never, true⟩ := by
  constructor
  · intro y hy hwant
    obtain rfl := Except.ok.inj hy
    have hx : x = !negated := by simpa [Value.isTrue] using hwant
    subst hx
    cases negated <;> rfl
  · intro _
    refine ⟨.bool x, rfl, ?_⟩
    cases x <;> cases negated <;> rfl

/-- **The condition of every predicate, under either polarity, covers it.** -/
theorem covers_ofPolar {key : Nat} (hrow : row[key]? = some v) (ty : ColumnType) (negated : Bool)
    (e : Expr) : Covers row b v negated e (ofPolar key ty negated e) := by
  -- One case for each predicate that constrains the key; the others let every key pass.
  fun_induction ofPolar key ty negated e with
  | case1 negated e ih => exact covers_not ih
  | case2 negated l r left right ihl ihr => exact covers_and ihl ihr
  | case3 negated l r left right ihl ihr => exact covers_or ihl ihr
  | case4 negated x => exact covers_literal x
  | case5 negated i h =>
    refine covers_ofTest fun answer hp => ⟨v, ?_, ?_⟩
    · exact eval_of_isKey hrow (by simp_all [isKey])
    · rw [← isTrue_eq_passes]
      exact Option.some.inj hp
  | case7 negated op l r hl => exact covers_compare hrow op hl
  | case8 negated op l r _ hr => exact covers_compare_swap hrow op hr
  | case10 negated e choices he ks hks => exact covers_oneOf hrow he hks
  | case13 negated e he =>
    refine covers_ofTest fun answer hp => ⟨.bool v.isNull, ?_, Option.some.inj hp⟩
    rw [Expr.eval, eval_of_isKey hrow he]
    rfl
  | case15 negated target argument ht k hk => exact covers_startsWith hrow ht hk
  | _ => exact covers_unconstrained

/-! ### Keys of a condition -/

/-- A condition compares the key with operands of its predicate, and with `true` where the key
itself is the predicate. -/
theorem operands_ofPolar (key : Nat) (ty : ColumnType) (negated : Bool) (e : Expr) :
    ∀ k ∈ (ofPolar key ty negated e).condition.operands,
      k ∈ e.operands ∨ k = .literal (.bool true) := by
  -- A comparison has its operand from the predicate, or constrains nothing.
  have hcomparison : ∀ (op : CompareOp) (operand : Expr) (negated : Bool),
      ∀ k ∈ (ofComparison op operand negated).condition.operands, k ∈ operand.operands := by
    intro op operand negated k hk
    unfold ofComparison at hk
    cases ho : KeyOperand.ofExpr? operand with
    | none => simp [ho, unconstrained, KeyCondition.operands] at hk
    | some k' =>
      rw [Expr.operands_of_ofExpr? ho]
      simpa [ho, ofTest, KeyCondition.operands, KeyTest.operands] using hk
  fun_induction ofPolar key ty negated e with
  | case1 negated e ih => exact ih
  | case2 negated l r left right ihl ihr =>
    intro k hk
    have hlr : k ∈ left.condition.operands ∨ k ∈ right.condition.operands := by
      -- Under a negation the two sides are alternatives.
      cases negated with
      | false => exact KeyCondition.mem_operands_both hk
      | true => exact KeyCondition.mem_operands_either hk
    rw [Expr.operands, List.mem_append]
    exact hlr.elim (fun h => (ihl k h).imp_left Or.inl) fun h => (ihr k h).imp_left Or.inr
  | case3 negated l r left right ihl ihr =>
    intro k hk
    have hlr : k ∈ left.condition.operands ∨ k ∈ right.condition.operands := by
      cases negated with
      | false => exact KeyCondition.mem_operands_either hk
      | true => exact KeyCondition.mem_operands_both hk
    rw [Expr.operands, List.mem_append]
    exact hlr.elim (fun h => (ihl k h).imp_left Or.inl) fun h => (ihr k h).imp_left Or.inr
  | case4 negated x =>
    intro k hk
    cases x <;> cases negated <;> simp [KeyCondition.operands] at hk
  | case5 negated i h =>
    intro k hk
    -- A column that stands alone is compared with a literal that the predicate does not have.
    exact Or.inr (by simpa [ofTest, KeyCondition.operands, KeyTest.operands] using hk)
  | case7 negated op l r hl =>
    intro k hk
    rw [Expr.operands, List.mem_append]
    exact Or.inl (Or.inr (hcomparison op r negated k hk))
  | case8 negated op l r _ hr =>
    intro k hk
    rw [Expr.operands, List.mem_append]
    exact Or.inl (Or.inl (hcomparison op.swap l negated k hk))
  | case10 negated e choices he ks hks =>
    intro k hk
    rw [Expr.operands, List.mem_append, Expr.operandsOf_of_mapM_ofExpr? hks]
    exact Or.inl (Or.inr hk)
  | case15 negated target argument ht k' hk' =>
    intro k hk
    rw [Expr.operands, List.mem_append, Expr.operands_of_ofExpr? hk']
    exact Or.inl (Or.inr hk)
  | _ =>
    intro k hk
    cases hk

/-- **A predicate that its condition stands for has no parameters.** -/
theorem not_isParameter_of_isExact (key : Nat) (ty : ColumnType) (negated : Bool) (e : Expr) :
    (ofPolar key ty negated e).isExact → ∀ k ∈ e.operands, k.isParameter = false := by
  -- The key itself has no operands.
  have hkey : ∀ {e : Expr}, isKey key e → e.operands = [] := by
    intro e he
    cases e <;> first | rfl | cases he
  -- A comparison is exact only if its operand is a literal.
  have hcomparison : ∀ (op : CompareOp) (operand : Expr) (negated : Bool),
      (ofComparison op operand negated).isExact →
        ∀ k ∈ operand.operands, k.isParameter = false := by
    intro op operand negated h k hk
    unfold ofComparison at h
    cases ho : KeyOperand.ofExpr? operand with
    | none => simp [ho, unconstrained] at h
    | some k' =>
      rw [Expr.operands_of_ofExpr? ho, List.mem_singleton] at hk
      simpa [ho, ofTest, KeyTest.readsParameter, hk] using h
  fun_induction ofPolar key ty negated e with
  | case1 negated e ih => exact ih
  | case2 negated l r left right ihl ihr | case3 negated l r left right ihl ihr =>
    intro h k hk
    obtain ⟨hl, hr⟩ := Bool.and_eq_true_iff.mp h
    rw [Expr.operands, List.mem_append] at hk
    exact hk.elim (ihl hl k) (ihr hr k)
  | case4 negated x =>
    intro _ k hk
    rw [List.mem_singleton.mp hk]
    rfl
  | case5 negated i h =>
    intro _ k hk
    cases hk
  | case7 negated op l r hl =>
    intro h
    rw [Expr.operands, hkey hl]
    exact hcomparison op r negated h
  | case8 negated op l r _ hr =>
    intro h
    rw [Expr.operands, hkey hr, List.append_nil]
    exact hcomparison op.swap l negated h
  | case10 negated e choices he ks hks =>
    intro h
    rw [Expr.operands, hkey he, Expr.operandsOf_of_mapM_ofExpr? hks]
    simpa [ofTest, KeyTest.readsParameter] using h
  | case13 negated e he =>
    intro _
    rw [Expr.operands, hkey he]
    simp
  | case15 negated target argument ht k' hk' =>
    intro h
    rw [Expr.operands, hkey ht, Expr.operands_of_ofExpr? hk']
    simpa [ofTest, KeyTest.readsParameter] using h
  | _ =>
    intro h
    cases h

/-- On a row whose predicate has its values in a set with a transitive key order, the keys of the
condition are those it admits. -/
theorem contains_keys_ofPolar {S : Set Value} (hS : TransitiveOn S) {key : Nat} {ty : ColumnType}
    (hv : v ∈ S) (hty : v.fits ty) (he : KeyOperand.ValuesIn b S e.operands) :
    ((ofPolar key ty negated e).condition.keys ty b).contains v =
      (ofPolar key ty negated e).condition.admits b v := by
  refine (KeyCondition.answers_keys hS.keySpace (Or.inl hv) hty _ ?_).contains_eq
  intro k hk w hw
  rcases operands_ofPolar key ty negated e k hk with hmem | rfl
  · exact Or.inl (he k hmem w hw)
  · obtain rfl := Option.some.inj hw
    exact Or.inr (by simp [Value.cls])

/-- **A row that a predicate keeps has a key in the extracted keys.**  Parameters may be unbound,
and the key may be null or anything the column can be compared with. -/
theorem contains_keys_of_holds (p : Expr) (key : Nat) (ty : ColumnType) (b : Bindings) (row : Row)
    (v : Value) (hrow : row[key]? = some v) (hty : v.fits ty)
    (htrans : TransitiveOn {w | w = v ∨ ∃ k ∈ p.operands, k.value? b = some w})
    (hp : p.holds row b = .ok true) :
    ((ofPredicate key ty p).condition.keys ty b).contains v = true := by
  obtain ⟨y, hy, htrue⟩ := bind_eq_ok_iff.mp hp
  rw [ofPredicate, contains_keys_ofPolar htrans (Or.inl rfl) hty
    fun k hk w hw => Or.inr ⟨k, hk, hw⟩]
  exact (covers_ofPolar hrow ty false p).admits_of_eval y hy (Except.ok.inj htrue)

/-- A text column under a negated conjunction whose second part is never evaluated, as its parameter
is unbound, next to a test of how the text starts. -/
theorem contains_keys_of_holds_unbound :
    let p : Expr := .and
      (.not (.and (.compare .lt (.literal (.text "m")) (.column 1))
        (.compare .eq (.column 1) (.parameter "name"))))
      (.call .startsWith (.column 1) (.literal (.text "ab")))
    p.holds [.int32 7, .text "abc"] .empty = .ok true ∧
      ((ofPredicate 1 .text p).condition.keys .text .empty).contains (.text "abc") = true := by
  intro p
  have hp : p.holds [.int32 7, .text "abc"] .empty = .ok true := by decide
  refine ⟨hp, contains_keys_of_holds p 1 .text .empty _ (.text "abc") rfl rfl ?_ hp⟩
  refine Value.transitiveOn_of_ne_float fun w hw x hx => ?_
  subst hx
  rcases hw with hw | ⟨k, hk, hw⟩
  · cases hw
  · simp [p, Expr.operands] at hk
    rcases hk with rfl | rfl | rfl <;> simp [KeyOperand.value?, Bindings.get?, Bindings.empty] at hw

/-- **An exact condition stands for its predicate.**  On every row with a key that the column can
hold, the predicate has an answer, and it is whether the key is one of the extracted keys. -/
theorem holds_eq_contains_keys (p : Expr) (key : Nat) (ty : ColumnType) (b : Bindings) (row : Row)
    (v : Value) (hrow : row[key]? = some v) (hty : v.fits ty)
    (htrans : TransitiveOn {w | w = v ∨ ∃ k ∈ p.operands, k.value? b = some w})
    (hexact : (ofPredicate key ty p).isExact) :
    p.holds row b = .ok (((ofPredicate key ty p).condition.keys ty b).contains v) := by
  obtain ⟨y, hy, hadmits⟩ := (covers_ofPolar hrow ty false p).eval_of_isExact hexact
  have hkeys : ((ofPredicate key ty p).condition.keys ty b).contains v = y.isTrue := by
    rw [ofPredicate, contains_keys_ofPolar htrans (Or.inl rfl) hty
      fun k hk w hw => Or.inr ⟨k, hk, hw⟩, hadmits, Bool.bne_false]
  rw [Expr.holds, hy, hkeys]
  rfl

/-- A choice among values of which one is null and one is no text, negated, beside a test of how the
text starts: the row with `abc` is kept, and the one with the chosen `ab` is not. -/
theorem holds_eq_contains_keys_choices :
    let p : Expr := .and
      (.not (.oneOf (.column 1) [.literal (.text "ab"), .literal .null, .literal (.int32 3)]))
      (.or (.isNull (.column 1)) (.call .startsWith (.column 1) (.literal (.text "ab"))))
    let keys := (ofPredicate 1 .text p).condition.keys .text .empty
    (ofPredicate 1 .text p).isExact = true ∧
      (p.holds [.int32 7, .text "abc"] .empty = .ok true ∧ keys.contains (.text "abc") = true) ∧
      (p.holds [.int32 7, .text "ab"] .empty = .ok false ∧ keys.contains (.text "ab") = false) := by
  intro p keys
  have hexact : (ofPredicate 1 .text p).isExact = true := rfl
  -- None of the values that are compared is a float.
  have htrans : ∀ s : String,
      TransitiveOn {w | w = .text s ∨ ∃ k ∈ p.operands, k.value? .empty = some w} := by
    intro s
    refine Value.transitiveOn_of_ne_float fun w hw x hx => ?_
    subst hx
    rcases hw with hw | ⟨k, hk, hw⟩
    · cases hw
    · simp only [p, Expr.operands, Expr.operandsOf, List.append_nil, List.nil_append,
        List.cons_append, List.mem_cons, List.not_mem_nil, or_false] at hk
      rcases hk with rfl | rfl | rfl | rfl <;> simp [KeyOperand.value?] at hw
  have hkept : p.holds [.int32 7, .text "abc"] .empty = .ok true := by decide
  have hdropped : p.holds [.int32 7, .text "ab"] .empty = .ok false := by decide
  have hlong := holds_eq_contains_keys p 1 .text .empty [.int32 7, .text "abc"] (.text "abc") rfl
    rfl (htrans _) hexact
  have hshort := holds_eq_contains_keys p 1 .text .empty [.int32 7, .text "ab"] (.text "ab") rfl rfl
    (htrans _) hexact
  exact ⟨hexact, ⟨hkept, Except.ok.inj (hlong.symm.trans hkept)⟩,
    hdropped, Except.ok.inj (hshort.symm.trans hdropped)⟩

end Extraction

end QueryPlanner
