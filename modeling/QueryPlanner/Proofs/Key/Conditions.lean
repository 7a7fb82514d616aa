import QueryPlanner.Proofs.Key.Prefix

/-!
# What key conditions say about one key

A condition is evaluated to a set of intervals.  Read through membership, that set is the plain
meaning of the condition on a key: tests compare the key with the values of their operands, a test
with an unbound parameter lets every key through, and the rest is propositional.

## Main definitions

* `Value.fits` — a value that a column of some type can hold: null, or comparable with the type.
* `KeyTest.passes?` — the answer of a test on a key, unless a parameter is unbound.
* `KeyCondition.admits` — whether a condition lets a key through.

## Main results

* `KeyTest.contains_exactKeys?` — the intervals of a test hold the keys that pass it.
* `KeyCondition.contains_keys` — the intervals of a condition hold the keys it admits.
-/

namespace QueryPlanner

open Value (KeySpace)

/-- Whether a column of some type can hold a value. -/
def Value.fits (v : Value) (ty : ColumnType) : Bool := v.isNull || v.isComparableWith ty

namespace Value

/-! ### Comparing a key with an operand -/

theorem isComparableWith_iff (v : Value) (ty : ColumnType) :
    v.isComparableWith ty ↔ v.isNull = false ∧ v.cls = ty.cls := by
  simp [isComparableWith]

theorem isNull_iff (v : Value) : v.isNull ↔ v = .null := by
  cases v <;> simp [isNull]

theorem isNull_iff_cls (v : Value) : v.isNull ↔ v.cls = .null := by
  cases v <;> simp [isNull, cls]

/-- The comparison of predicates turned round. -/
theorem any_test_compare?_swap (op : CompareOp) (v w : Value) :
    (w.compare? v).any op.test = (v.compare? w).any op.swap.test := by
  have hcond : (w.isNull || v.isNull || w.cls != v.cls) =
      (v.isNull || w.isNull || v.cls != w.cls) := by
    rw [Bool.or_comm w.isNull]
    congr 1
    rw [bne_comm]
  unfold compare?
  rw [hcond]
  split
  · rfl
  · simp only [Option.any_some]
    rw [← keyCmp_swap v w]
    cases v.keyCmp w <;> cases op <;> rfl

theorem cls_of_fits {v : Value} {ty : ColumnType} (hv : v.fits ty) (hnull : v.isNull = false) :
    v.cls = ty.cls := by
  simp only [fits, hnull, Bool.false_or] at hv
  exact ((isComparableWith_iff v ty).mp hv).2

/-- Where the key can be compared with the operand, the comparison is that of keys. -/
theorem compare?_of_fits {v w : Value} {ty : ColumnType} (hv : v.fits ty)
    (hw : w.isComparableWith ty) :
    v.compare? w = if v.isNull then none else some (v.keyCmp w) := by
  obtain ⟨hwn, hwc⟩ := (isComparableWith_iff w ty).mp hw
  unfold compare?
  cases hvn : v.isNull with
  | true => simp
  | false =>
    simp [hwn, cls_of_fits hv hvn, hwc]

/-- An operand that cannot be compared with the column compares with no key of it. -/
theorem compare?_of_not_isComparableWith {v w : Value} {ty : ColumnType} (hv : v.fits ty)
    (hw : ¬ w.isComparableWith ty) : v.compare? w = none := by
  unfold compare?
  rw [if_pos]
  rw [isComparableWith_iff, not_and] at hw
  cases hvn : v.isNull with
  | true => rfl
  | false =>
    cases hwn : w.isNull with
    | true => rfl
    | false =>
      have hne : w.cls ≠ ty.cls := hw hwn
      simp [cls_of_fits hv hvn, Ne.symm hne]

theorem keyCmp_null_of_not_isNull {v : Value} (h : v.isNull = false) :
    Value.null.keyCmp v = .lt := by
  cases v <;> first | rfl | simp [isNull] at h

end Value

namespace IntervalSet

variable {S : Set Value}

/-- Above null lies everything else. -/
theorem after_null_le_exactly (v : Value) : (Bound.after .null).le (.exactly v) = !v.isNull := by
  cases v <;> rfl

/-- The intervals that `comparing` is built from. -/
def comparingParts (op : CompareOp) (w : Value) : List Interval :=
  match op with
  | .eq => [.point w]
  | .ne => [⟨.after .null, .before w⟩, ⟨.after w, .top⟩]
  | .lt => [⟨.after .null, .before w⟩]
  | .le => [⟨.after .null, .exactly w⟩]
  | .gt => [⟨.after w, .top⟩]
  | .ge => [⟨.exactly w, .top⟩]

theorem comparing_eq (op : CompareOp) (w : Value) :
    comparing op w = ofIntervals (comparingParts op w) := by
  cases op <;> rfl

theorem within_comparingParts (hS : KeySpace S) (op : CompareOp) {w : Value} (hw : w ∈ S) :
    ∀ i ∈ comparingParts op w, i.Within S := by
  cases op <;> simp [comparingParts, Interval.Within, Bound.Within, Interval.point, Bound.exactly,
    Bound.after, Bound.before, hw, hS.null]

/-- The keys in relation to a value that is not null: null is never one of them. -/
theorem contains_comparing (hS : KeySpace S) (op : CompareOp)
    {v w : Value} (hv : v ∈ S) (hw : w ∈ S) (hwn : w.isNull = false) :
    (comparing op w).contains v ↔ v.isNull = false ∧ op.test (v.keyCmp w) := by
  rw [comparing_eq, contains_ofIntervals hS (within_comparingParts hS op hw) hv]
  have hnw : v.isNull = true → v.keyCmp w = .lt := fun h => by
    rw [(Value.isNull_iff v).mp h]
    exact Value.keyCmp_null_of_not_isNull hwn
  have hafter : (Bound.after w).le (.exactly v) ↔ v.keyCmp w = .gt := by
    simp only [Bound.le, Bound.after, Bound.exactly, Bound.cmp]
    rw [← Value.keyCmp_swap v w]
    cases v.keyCmp w <;> decide
  have hfrom : (Bound.exactly w).le (.exactly v) ↔ v.keyCmp w ≠ .lt := by
    simp only [Bound.le, Bound.exactly, Bound.cmp]
    rw [← Value.keyCmp_swap v w]
    cases v.keyCmp w <;> decide
  have hbefore : (Bound.exactly v).le (.before w) ↔ v.keyCmp w = .lt := by
    simp only [Bound.le, Bound.before, Bound.exactly, Bound.cmp]
    cases v.keyCmp w <;> decide
  have hto : (Bound.exactly v).le (.exactly w) ↔ v.keyCmp w ≠ .gt := by
    simp only [Bound.le, Bound.exactly, Bound.cmp]
    cases v.keyCmp w <;> decide
  -- What is left is a table: by the operator, whether the key is null, and how it compares.
  cases op <;>
    simp only [comparingParts, List.mem_cons, List.not_mem_nil, or_false, exists_eq_or_imp,
      exists_eq_left, Interval.contains_iff, Interval.point, after_null_le_exactly, hafter, hfrom,
      hbefore, hto, Bound.le_top, CompareOp.test, Bool.not_eq_true'] <;>
    cases hvn : v.isNull <;> cases hc : v.keyCmp w <;> simp [hvn, hc] at hnw ⊢

end IntervalSet

/-! ### Tests -/

namespace KeyOperand

/-- The values of several operands, as far as they are bound, lie in a set. -/
def ValuesIn (b : Bindings) (S : Set Value) (operands : List KeyOperand) : Prop :=
  ∀ k ∈ operands, ∀ w, k.value? b = some w → w ∈ S

/-- Operands that are all bound have a list of values, one for each. -/
theorem mem_of_mapM_value? {b : Bindings} : ∀ {operands : List KeyOperand} {ws : List Value},
    operands.mapM (value? b) = some ws → ∀ w ∈ ws, ∃ k ∈ operands, k.value? b = some w := by
  intro operands
  induction operands with
  | nil =>
    intro ws h w hw
    simp at h
    simp [h] at hw
  | cons k ks ih =>
    intro ws h w hw
    rw [List.mapM_cons] at h
    obtain ⟨x, hx, h⟩ := Option.bind_eq_some_iff.mp h
    obtain ⟨xs, hxs, h⟩ := Option.bind_eq_some_iff.mp h
    obtain rfl := Option.some.inj h
    rcases List.mem_cons.mp hw with rfl | hw
    · exact ⟨k, by simp, hx⟩
    · obtain ⟨k', hk', hw'⟩ := ih hxs w hw
      exact ⟨k', by simp [hk'], hw'⟩

end KeyOperand

namespace KeyTest

variable {S : Set Value}

/-- The operands of a test. -/
def operands : KeyTest → List KeyOperand
  | .compare _ operand => [operand]
  | .oneOf operands => operands
  | .isNull => []
  | .startsWith operand => [operand]

/-- The answer of a test on a key, unless a parameter of it is unbound. -/
def passes? (b : Bindings) (key : Value) : KeyTest → Option Bool
  | .compare op operand => (operand.value? b).map fun w => (key.compare? w).any op.test
  | .oneOf operands =>
    (operands.mapM (KeyOperand.value? b)).map fun ws => ws.any fun w => key.compare? w = some .eq
  | .isNull => some key.isNull
  | .startsWith operand => (operand.value? b).map fun w =>
    match key.text?, w.text? with
    | some t, some s => TextMethod.startsWith.apply t s
    | _, _ => false

/-- The answer a test has to give for its negation, or for itself, to let a key through. A test with
an unbound parameter lets every key through. -/
def admits (b : Bindings) (key : Value) (test : KeyTest) (negated : Bool) : Bool :=
  match test.passes? b key with
  | some answer => answer != negated
  | none => true

/-- A key equals one of several values if it equals one that can be compared with its column. -/
theorem contains_points_filter (hS : KeySpace S) {ty : ColumnType}
    {v : Value} (hv : v ∈ S) (hty : v.fits ty) {ws : List Value} (hws : ∀ w ∈ ws, w ∈ S) :
    (IntervalSet.points (ws.filter fun w => w.isComparableWith ty)).contains v ↔
      ∃ w ∈ ws, v.compare? w = some .eq := by
  rw [IntervalSet.contains_points hS (fun w hw => hws w (List.mem_filter.mp hw).1) hv]
  constructor
  · rintro ⟨w, hw, heq⟩
    obtain ⟨hw, hcomp⟩ := List.mem_filter.mp hw
    refine ⟨w, hw, ?_⟩
    -- A null is the equal of nulls only, and those are not comparable with the type.
    have hvn : v.isNull = false := by
      have hwn := ((Value.isComparableWith_iff w ty).mp hcomp).1
      have hcls := Value.cls_eq_of_keyCmp_eq heq
      rw [Bool.eq_false_iff, ne_eq, Value.isNull_iff_cls, ← hcls, ← Value.isNull_iff_cls]
      simp [hwn]
    rw [Value.compare?_of_fits hty hcomp, hvn, ← Value.keyCmp_swap, heq]
    rfl
  · rintro ⟨w, hw, heq⟩
    -- A value of another class compares with nothing that the column holds.
    have hcomp : w.isComparableWith ty := by
      by_contra hnot
      rw [Value.compare?_of_not_isComparableWith hty hnot] at heq
      simp at heq
    refine ⟨w, List.mem_filter.mpr ⟨hw, hcomp⟩, ?_⟩
    rw [Value.compare?_of_fits hty hcomp] at heq
    cases hvn : v.isNull <;> simp [hvn] at heq
    rw [← Value.keyCmp_swap, heq]
    rfl

section

variable (hS : KeySpace S) {ty : ColumnType} {b : Bindings} {v : Value}
  (hv : v ∈ S) (hty : v.fits ty)

include hS hv

theorem answers_comparing (op : CompareOp) {w : Value} (hw : w ∈ S) (hty : v.fits ty) :
    IntervalSet.Answers S v (if w.isComparableWith ty then .comparing op w else .empty)
      ((v.compare? w).any op.test) := by
  by_cases hcomp : w.isComparableWith ty
  · have hwn := ((Value.isComparableWith_iff w ty).mp hcomp).1
    have hparts := IntervalSet.within_comparingParts hS op hw
    rw [if_pos hcomp, IntervalSet.comparing_eq]
    refine .ofIntervals hS hv hparts ?_
    rw [← IntervalSet.contains_ofIntervals hS hparts hv, ← IntervalSet.comparing_eq,
      IntervalSet.contains_comparing hS op hv hw hwn, Value.compare?_of_fits hty hcomp]
    cases v.isNull <;> simp
  · rw [if_neg hcomp, Value.compare?_of_not_isComparableWith hty hcomp]
    exact .empty

theorem answers_points {ws : List Value} (hws : ∀ w ∈ ws, w ∈ S) (hty : v.fits ty) :
    IntervalSet.Answers S v (.points (ws.filter fun w => w.isComparableWith ty))
      (ws.any fun w => v.compare? w = some .eq) := by
  have hpoints : ∀ i ∈ (ws.filter fun w => w.isComparableWith ty).map Interval.point,
      i.Within S := by
    intro i hi
    obtain ⟨w, hw, rfl⟩ := List.mem_map.mp hi
    exact IntervalSet.within_point (hws w (List.mem_filter.mp hw).1)
  refine .ofIntervals hS hv hpoints ?_
  rw [← IntervalSet.contains_ofIntervals hS hpoints hv]
  change (IntervalSet.points _).contains v ↔ _
  rw [contains_points_filter hS hv hty hws]
  simp

theorem answers_null : IntervalSet.Answers S v (.points [.null]) v.isNull := by
  have hpoints : ∀ i ∈ [Value.null].map Interval.point, i.Within S := by
    intro i hi
    rw [List.mem_singleton.mp hi]
    exact IntervalSet.within_point hS.null
  refine .ofIntervals hS hv hpoints ?_
  simp only [List.map_cons, List.map_nil, List.mem_singleton, exists_eq_left,
    IntervalSet.contains_point]
  cases hvn : v.isNull with
  | true => simp [(Value.isNull_iff v).mp hvn]
  | false => simp [Value.keyCmp_null_of_not_isNull hvn]

theorem answers_startingWith (s : String) (hty : v.fits .text) :
    IntervalSet.Answers S v (.startingWith s)
      (v.text?.any fun t => TextMethod.startsWith.apply t s) := by
  have hvt : v.isNull ∨ v.cls = .text := by
    simp only [Value.fits, Bool.or_eq_true, Value.isComparableWith_iff] at hty
    exact hty.imp id And.right
  have hstart : ∀ i ∈ [(⟨.exactly (.text s), IntervalSet.raisedEnd s⟩ : Interval)],
      i.Within S := by
    intro i hi
    rw [List.mem_singleton.mp hi]
    exact ⟨hS.text s, IntervalSet.within_raisedEnd hS s⟩
  refine .ofIntervals hS hv hstart ?_
  rw [← IntervalSet.contains_ofIntervals hS hstart hv]
  change (IntervalSet.startingWith s).contains v ↔ _
  rw [IntervalSet.contains_startingWith hS s hvt]
  cases v <;> simp [Value.text?]

include hty in
/-- **The intervals of a test hold the keys that pass it**, and are known when the answer is. -/
theorem answers_exactKeys? (t : KeyTest)
    (hops : KeyOperand.ValuesIn b S t.operands) :
    Option.Rel (IntervalSet.Answers S v) (t.exactKeys? ty b) (t.passes? b v) := by
  cases t with
  | compare op operand =>
    cases hw : operand.value? b with
    | none => simp [exactKeys?, passes?, hw]
    | some w =>
      have hwS : w ∈ S := hops operand (by simp [operands]) w hw
      simpa [exactKeys?, passes?, hw] using
        Option.Rel.some (answers_comparing hS hv op hwS hty)
  | oneOf ks =>
    cases hws : ks.mapM (KeyOperand.value? b) with
    | none => simp [exactKeys?, passes?, hws]
    | some ws =>
      have hwsS : ∀ w ∈ ws, w ∈ S := by
        intro w hw
        obtain ⟨k, hk, hkw⟩ := KeyOperand.mem_of_mapM_value? hws w hw
        exact hops k hk w hkw
      simpa [exactKeys?, passes?, hws] using Option.Rel.some (answers_points hS hv hwsS hty)
  | isNull => exact Option.Rel.some (answers_null hS hv)
  | startsWith operand =>
    cases hw : operand.value? b with
    | none => simp [exactKeys?, passes?, hw]
    | some w =>
      cases hs : w.text? with
      | none =>
        have hpass : passes? b v (.startsWith operand) = some false := by
          cases hvt : v.text? <;> simp [passes?, hw, hs, hvt]
        have hkeys : exactKeys? ty b (.startsWith operand) = some .empty := by
          simp [exactKeys?, hw, hs]
        rw [hpass, hkeys]
        exact Option.Rel.some .empty
      | some s =>
        have hpass : passes? b v (.startsWith operand)
            = some (v.text?.any fun t => TextMethod.startsWith.apply t s) := by
          cases hvt : v.text? <;> simp [passes?, hw, hs, hvt]
        by_cases htyt : ty = .text
        · subst htyt
          have hkeys : exactKeys? .text b (.startsWith operand) = some (.startingWith s) := by
            simp [exactKeys?, hw, hs]
          rw [hpass, hkeys]
          exact Option.Rel.some (answers_startingWith hS hv s hty)
        · -- A key of another type is no text.
          have hvt : v.text? = none := by
            simp only [Value.fits, Bool.or_eq_true, Value.isComparableWith_iff] at hty
            cases v <;> cases ty <;> simp_all [Value.isNull, Value.cls, ColumnType.cls, Value.text?]
          have hkeys : exactKeys? ty b (.startsWith operand) = some .empty := by
            cases ty <;> simp [exactKeys?, hw] at htyt ⊢
          rw [hpass, hkeys, hvt]
          exact Option.Rel.some .empty

include hty in
/-- The intervals of a test under a polarity hold the keys it lets through. -/
theorem answers_keys (t : KeyTest) (negated : Bool)
    (hops : KeyOperand.ValuesIn b S t.operands) :
    IntervalSet.Answers S v (t.keys ty b negated) (t.admits b v negated) := by
  have hrel := answers_exactKeys? hS hv hty t hops
  unfold keys admits
  -- The keys are exact where the test has an answer, and only there.
  cases hk : t.exactKeys? ty b with
  | none =>
    cases hp : t.passes? b v with
    | none => exact .full
    | some answer => rw [hk, hp] at hrel; cases hrel
  | some s =>
    cases hp : t.passes? b v with
    | none => rw [hk, hp] at hrel; cases hrel
    | some answer =>
      rw [hk, hp] at hrel
      cases hrel with
      | some hs =>
        cases negated with
        | false => simpa using hs
        | true => simpa using hs.complement hS hv

end

end KeyTest

/-! ### Conditions -/

namespace KeyCondition

mutual

/-- The operands of all tests of a condition. -/
def operands : KeyCondition → List KeyOperand
  | .always => []
  | .never => []
  | .test t _ => t.operands
  | .all parts => operandsOf parts
  | .any parts => operandsOf parts

/-- The operands of several conditions. -/
def operandsOf : List KeyCondition → List KeyOperand
  | [] => []
  | c :: cs => c.operands ++ operandsOf cs

end

mutual

/-- Whether a condition lets a key through. -/
def admits (b : Bindings) (key : Value) : KeyCondition → Bool
  | .always => true
  | .never => false
  | .test t negated => t.admits b key negated
  | .all parts => admitsAll b key parts
  | .any parts => admitsAny b key parts

/-- Whether every one of several conditions lets a key through. -/
def admitsAll (b : Bindings) (key : Value) : List KeyCondition → Bool
  | [] => true
  | c :: cs => c.admits b key && admitsAll b key cs

/-- Whether at least one of several conditions lets a key through. -/
def admitsAny (b : Bindings) (key : Value) : List KeyCondition → Bool
  | [] => false
  | c :: cs => c.admits b key || admitsAny b key cs

end

mutual

/-- **The intervals of a condition hold the keys it admits.** -/
theorem answers_keys {S : Set Value} (hS : KeySpace S) {ty : ColumnType} {b : Bindings} {v : Value}
    (hv : v ∈ S) (hty : v.fits ty) : ∀ c : KeyCondition, KeyOperand.ValuesIn b S c.operands →
    IntervalSet.Answers S v (c.keys ty b) (c.admits b v)
  | .always, _ => .full
  | .never, _ => .empty
  | .test t negated, hops => KeyTest.answers_keys hS hv hty t negated hops
  | .all parts, hops => answers_keysOfAll hS hv hty parts hops .full true .full
  | .any parts, hops => answers_keysOfAny hS hv hty parts hops .empty false .empty

theorem answers_keysOfAll {S : Set Value} (hS : KeySpace S) {ty : ColumnType} {b : Bindings}
    {v : Value} (hv : v ∈ S) (hty : v.fits ty) : ∀ cs : List KeyCondition,
    KeyOperand.ValuesIn b S (operandsOf cs) → ∀ (s : IntervalSet) (x : Bool),
      IntervalSet.Answers S v s x →
      IntervalSet.Answers S v (keysOfAll ty b s cs) (x && admitsAll b v cs)
  | [], _, s, x, hs => by simpa [keysOfAll, admitsAll] using hs
  | c :: cs, hops, s, x, hs => by
    have hc := answers_keys hS hv hty c fun k hk => hops k (by simp [operandsOf, hk])
    have hcs := answers_keysOfAll hS hv hty cs (fun k hk => hops k (by simp [operandsOf, hk])) _ _
      (hs.intersect hS hv hc)
    rwa [Bool.and_assoc] at hcs

theorem answers_keysOfAny {S : Set Value} (hS : KeySpace S) {ty : ColumnType} {b : Bindings}
    {v : Value} (hv : v ∈ S) (hty : v.fits ty) : ∀ cs : List KeyCondition,
    KeyOperand.ValuesIn b S (operandsOf cs) → ∀ (s : IntervalSet) (x : Bool),
      IntervalSet.Answers S v s x →
      IntervalSet.Answers S v (keysOfAny ty b s cs) (x || admitsAny b v cs)
  | [], _, s, x, hs => by simpa [keysOfAny, admitsAny] using hs
  | c :: cs, hops, s, x, hs => by
    have hc := answers_keys hS hv hty c fun k hk => hops k (by simp [operandsOf, hk])
    have hcs := answers_keysOfAny hS hv hty cs (fun k hk => hops k (by simp [operandsOf, hk])) _ _
      (hs.union hS hv hc)
    rwa [Bool.or_assoc] at hcs

end

/-! ### Combining two conditions -/

theorem admitsAll_append (b : Bindings) (v : Value) (cs ds : List KeyCondition) :
    admitsAll b v (cs ++ ds) = (admitsAll b v cs && admitsAll b v ds) := by
  induction cs with
  | nil => simp [admitsAll]
  | cons c cs ih => simp [admitsAll, ih, Bool.and_assoc]

theorem admitsAny_append (b : Bindings) (v : Value) (cs ds : List KeyCondition) :
    admitsAny b v (cs ++ ds) = (admitsAny b v cs || admitsAny b v ds) := by
  induction cs with
  | nil => simp [admitsAny]
  | cons c cs ih => simp [admitsAny, ih, Bool.or_assoc]

theorem admitsAll_allParts (b : Bindings) (v : Value) (c : KeyCondition) :
    admitsAll b v c.allParts = c.admits b v := by
  cases c <;> simp [allParts, admits, admitsAll]

theorem admitsAny_anyParts (b : Bindings) (v : Value) (c : KeyCondition) :
    admitsAny b v c.anyParts = c.admits b v := by
  cases c <;> simp [anyParts, admits, admitsAny]

/-- Both of two conditions let through what each of them does. -/
@[simp] theorem admits_both (b : Bindings) (v : Value) (c d : KeyCondition) :
    (c.both d).admits b v = (c.admits b v && d.admits b v) := by
  unfold both
  split <;> simp [admits, admitsAll_append, admitsAll_allParts]

@[simp] theorem admits_either (b : Bindings) (v : Value) (c d : KeyCondition) :
    (c.either d).admits b v = (c.admits b v || d.admits b v) := by
  unfold either
  split <;> simp [admits, admitsAny_append, admitsAny_anyParts]

end KeyCondition

end QueryPlanner
