import QueryPlanner.Proofs.Key.Algebra
import QueryPlanner.Proofs.Key.Extraction

/-!
# Unbound parameters widen key conditions

A condition is evaluated under whatever bindings there are.  A test with an unbound parameter lets
every key through, be it negated or not, and tests are the only place where something is negated, so
a condition never loses a key when parameters are unbound.  This holds for every key, also for one
that a column of the type cannot hold: no test has to be read, as one whose parameters are all bound
has the same intervals under more bindings.

## Main definitions

* `Bindings.Extends` — bindings that keep what others bind.

## Main results

* `KeyCondition.built_keys` — the intervals of a condition are built by the set operations.
* `KeyCondition.contains_keys_all`, `KeyCondition.contains_keys_any` — what nested conditions hold.
* `KeyCondition.contains_keys_of_extends` — a key under more bindings is a key under fewer.
* `KeyCondition.contains_keys_widen` — **unbound parameters only widen a condition**, and combining
  two conditions combines their keys.
-/

namespace QueryPlanner

open Value (TransitiveOn KeySpace)

/-- Everything that `p` binds is bound to the same value. -/
def Bindings.Extends (q p : Bindings) : Prop :=
  ∀ name v, p.get? name = some v → q.get? name = some v

/-- Names that are bound after others leave those as they are. -/
theorem Bindings.extends_append (p : Bindings) (more : List (String × Value)) :
    (⟨p.entries ++ more⟩ : Bindings).Extends p := by
  intro name v h
  rw [Bindings.get?, List.lookup_append, show p.entries.lookup name = some v from h]
  rfl

variable {S : Set Value} {ty : ColumnType} {b p q : Bindings} {v : Value}

/-! ### Operands and tests under more bindings -/

namespace KeyOperand

theorem value?_of_extends (hext : q.Extends p) {k : KeyOperand} {w : Value}
    (h : k.value? p = some w) : k.value? q = some w := by
  cases k with
  | literal _ => exact h
  | parameter name => exact hext name w h

theorem mapM_value?_of_extends (hext : q.Extends p) : ∀ {ks : List KeyOperand} {ws : List Value},
    ks.mapM (value? p) = some ws → ks.mapM (value? q) = some ws := by
  intro ks
  induction ks with
  | nil => exact id
  | cons k ks ih =>
    intro ws h
    rw [List.mapM_cons] at h ⊢
    obtain ⟨x, hx, h⟩ := Option.bind_eq_some_iff.mp h
    obtain ⟨xs, hxs, h⟩ := Option.bind_eq_some_iff.mp h
    rw [value?_of_extends hext hx, Option.bind_eq_bind, Option.bind_some, ih hxs]
    exact h

theorem ValuesIn.of_extends (hext : q.Extends p) {ks : List KeyOperand} (h : ValuesIn q S ks) :
    ValuesIn p S ks :=
  fun k hk w hw => h k hk w (value?_of_extends hext hw)

end KeyOperand

namespace KeyTest

/-- A test that is known has the same keys under more bindings. -/
theorem exactKeys?_of_extends (hext : q.Extends p) {t : KeyTest} {s : IntervalSet}
    (h : t.exactKeys? ty p = some s) : t.exactKeys? ty q = some s := by
  cases t with
  | isNull => exact h
  | compare op k =>
    obtain ⟨w, hw, h⟩ := Option.bind_eq_some_iff.mp h
    exact Option.bind_eq_some_iff.mpr ⟨w, KeyOperand.value?_of_extends hext hw, h⟩
  | oneOf ks =>
    obtain ⟨ws, hws, h⟩ := Option.bind_eq_some_iff.mp h
    exact Option.bind_eq_some_iff.mpr ⟨ws, KeyOperand.mapM_value?_of_extends hext hws, h⟩
  | startsWith k =>
    obtain ⟨w, hw, h⟩ := Option.bind_eq_some_iff.mp h
    exact Option.bind_eq_some_iff.mpr ⟨w, KeyOperand.value?_of_extends hext hw, h⟩

/-- **A test lets no more keys through under more bindings**, whatever its polarity. -/
theorem contains_keys_of_extends (hext : q.Extends p) (t : KeyTest) (negated : Bool)
    (h : (t.keys ty q negated).contains v) : (t.keys ty p negated).contains v := by
  unfold keys at h ⊢
  cases hp : t.exactKeys? ty p with
  | none => exact IntervalSet.contains_full v
  | some s =>
    rw [exactKeys?_of_extends hext hp] at h
    exact h

theorem built_exactKeys? (hS : KeySpace S) {t : KeyTest} {s : IntervalSet}
    (hops : KeyOperand.ValuesIn b S t.operands) (h : t.exactKeys? ty b = some s) :
    IntervalSet.Built S s := by
  cases t with
  | isNull =>
    obtain rfl := Option.some.inj h
    exact .points fun w hw => List.mem_singleton.mp hw ▸ hS.null
  | compare op k =>
    obtain ⟨w, hw, h⟩ := Option.bind_eq_some_iff.mp h
    obtain rfl := Option.some.inj h
    -- An operand that is not comparable with the type has no keys.
    split
    · rw [IntervalSet.comparing_eq]
      exact .ofIntervals (IntervalSet.within_comparingParts hS op
        (hops k (by simp [operands]) w hw))
    · exact .empty
  | oneOf ks =>
    obtain ⟨ws, hws, h⟩ := Option.bind_eq_some_iff.mp h
    obtain rfl := Option.some.inj h
    refine .points fun w hw => ?_
    obtain ⟨k, hk, hkw⟩ := KeyOperand.mem_of_mapM_value? hws w (List.mem_filter.mp hw).1
    exact hops k hk w hkw
  | startsWith k =>
    obtain ⟨w, -, h⟩ := Option.bind_eq_some_iff.mp h
    -- Only a text can be the beginning of one.
    split at h
    · rename_i start _ _
      obtain rfl := Option.some.inj h
      refine .ofIntervals fun i hi => ?_
      rw [List.mem_singleton.mp hi]
      exact ⟨hS.text start, IntervalSet.within_raisedEnd hS start⟩
    · obtain rfl := Option.some.inj h
      exact .empty

theorem built_keys (hS : KeySpace S) {t : KeyTest} (hops : KeyOperand.ValuesIn b S t.operands)
    (negated : Bool) : IntervalSet.Built S (t.keys ty b negated) := by
  unfold keys
  cases h : t.exactKeys? ty b with
  | none => exact .full
  | some s =>
    have hs := built_exactKeys? hS hops h
    cases negated with
    | false => exact hs
    | true => exact hs.complement

end KeyTest

/-! ### Conditions -/

namespace KeyCondition

theorem valuesIn_cons {c : KeyCondition} {cs : List KeyCondition}
    (h : KeyOperand.ValuesIn b S (operandsOf (c :: cs))) :
    KeyOperand.ValuesIn b S c.operands ∧ KeyOperand.ValuesIn b S (operandsOf cs) :=
  ⟨fun k hk => h k (by simp [operandsOf, hk]), fun k hk => h k (by simp [operandsOf, hk])⟩

mutual

/-- **The intervals of a condition are built by the set operations.** -/
theorem built_keys (hS : KeySpace S) : ∀ c : KeyCondition, KeyOperand.ValuesIn b S c.operands →
    IntervalSet.Built S (c.keys ty b)
  | .always, _ => .full
  | .never, _ => .empty
  | .test _ negated, hops => KeyTest.built_keys hS hops negated
  | .all parts, hops => built_keysOfAll hS parts hops .full
  | .any parts, hops => built_keysOfAny hS parts hops .empty

theorem built_keysOfAll (hS : KeySpace S) : ∀ cs : List KeyCondition,
    KeyOperand.ValuesIn b S (operandsOf cs) → ∀ {s : IntervalSet}, IntervalSet.Built S s →
    IntervalSet.Built S (keysOfAll ty b s cs)
  | [], _, _, hs => hs
  | c :: cs, hops, _, hs =>
    built_keysOfAll hS cs (valuesIn_cons hops).2
      (hs.intersect (built_keys hS c (valuesIn_cons hops).1))

theorem built_keysOfAny (hS : KeySpace S) : ∀ cs : List KeyCondition,
    KeyOperand.ValuesIn b S (operandsOf cs) → ∀ {s : IntervalSet}, IntervalSet.Built S s →
    IntervalSet.Built S (keysOfAny ty b s cs)
  | [], _, _, hs => hs
  | c :: cs, hops, _, hs =>
    built_keysOfAny hS cs (valuesIn_cons hops).2 (hs.union (built_keys hS c (valuesIn_cons hops).1))

end

section

variable (hS : KeySpace S) (hv : v ∈ S)

include hS hv

theorem contains_keysOfAll {cs : List KeyCondition} (hops : KeyOperand.ValuesIn b S (operandsOf cs))
    {s : IntervalSet} (hs : IntervalSet.Built S s) : (keysOfAll ty b s cs).contains v ↔
      s.contains v ∧ ∀ c ∈ cs, (c.keys ty b).contains v := by
  induction cs generalizing s with
  | nil => simp [keysOfAll]
  | cons c cs ih =>
    obtain ⟨hc, hcs⟩ := valuesIn_cons hops
    have hkeys : IntervalSet.Built S (c.keys ty b) := built_keys hS c hc
    rw [keysOfAll, ih hcs (hs.intersect hkeys),
      IntervalSet.contains_intersect hS hs.within hkeys.within hv, and_assoc, List.forall_mem_cons]

theorem contains_keysOfAny {cs : List KeyCondition} (hops : KeyOperand.ValuesIn b S (operandsOf cs))
    {s : IntervalSet} (hs : IntervalSet.Built S s) : (keysOfAny ty b s cs).contains v ↔
      s.contains v ∨ ∃ c ∈ cs, (c.keys ty b).contains v := by
  induction cs generalizing s with
  | nil => simp [keysOfAny]
  | cons c cs ih =>
    obtain ⟨hc, hcs⟩ := valuesIn_cons hops
    have hkeys : IntervalSet.Built S (c.keys ty b) := built_keys hS c hc
    rw [keysOfAny, ih hcs (hs.union hkeys),
      IntervalSet.contains_union hS hs.within hkeys.within hv, or_assoc]
    simp only [List.mem_cons, exists_eq_or_imp]

/-- All of several conditions hold the keys that each of them holds. -/
theorem contains_keys_all {parts : List KeyCondition}
    (hops : KeyOperand.ValuesIn b S (operandsOf parts)) :
    ((KeyCondition.all parts).keys ty b).contains v ↔ ∀ c ∈ parts, (c.keys ty b).contains v := by
  rw [keys, contains_keysOfAll hS hv hops .full, IntervalSet.contains_full]
  simp

/-- At least one of several conditions holds the keys that one of them holds. -/
theorem contains_keys_any {parts : List KeyCondition}
    (hops : KeyOperand.ValuesIn b S (operandsOf parts)) :
    ((KeyCondition.any parts).keys ty b).contains v ↔ ∃ c ∈ parts, (c.keys ty b).contains v := by
  rw [keys, contains_keysOfAny hS hv hops .empty, IntervalSet.contains_empty]
  simp

theorem contains_keys_allParts {c : KeyCondition} (hops : KeyOperand.ValuesIn b S c.operands) :
    (∀ part ∈ c.allParts, (part.keys ty b).contains v) ↔ (c.keys ty b).contains v := by
  cases c with
  | all parts => exact (contains_keys_all hS hv hops).symm
  | always | never | test | any => simp [allParts]

theorem contains_keys_anyParts {c : KeyCondition} (hops : KeyOperand.ValuesIn b S c.operands) :
    (∃ part ∈ c.anyParts, (part.keys ty b).contains v) ↔ (c.keys ty b).contains v := by
  cases c with
  | any parts => exact (contains_keys_any hS hv hops).symm
  | always | never | test | all => simp [anyParts]

variable {c d : KeyCondition} (hc : KeyOperand.ValuesIn b S c.operands)
  (hd : KeyOperand.ValuesIn b S d.operands)

include hc hd

/-- Both of two conditions, simplified or not, hold the keys that each of them holds. -/
theorem contains_keys_both :
    ((c.both d).keys ty b).contains v ↔ (c.keys ty b).contains v ∧ (d.keys ty b).contains v := by
  unfold both
  split
  · simp [keys]
  · simp [keys]
  · simp [keys]
  · simp [keys]
  · -- Nested conjunctions are one list of parts.
    have hparts : KeyOperand.ValuesIn b S (operandsOf (c.allParts ++ d.allParts)) := by
      rw [operandsOf_append, operandsOf_allParts, operandsOf_allParts]
      exact fun k hk => (List.mem_append.mp hk).elim (hc k) (hd k)
    rw [contains_keys_all hS hv hparts, List.forall_mem_append, contains_keys_allParts hS hv hc,
      contains_keys_allParts hS hv hd]

/-- At least one of two conditions, simplified or not, holds the keys that one of them holds. -/
theorem contains_keys_either :
    ((c.either d).keys ty b).contains v ↔ (c.keys ty b).contains v ∨ (d.keys ty b).contains v := by
  unfold either
  split
  · simp [keys]
  · simp [keys]
  · simp [keys]
  · simp [keys]
  · have hparts : KeyOperand.ValuesIn b S (operandsOf (c.anyParts ++ d.anyParts)) := by
      rw [operandsOf_append, operandsOf_anyParts, operandsOf_anyParts]
      exact fun k hk => (List.mem_append.mp hk).elim (hc k) (hd k)
    rw [contains_keys_any hS hv hparts, ← contains_keys_anyParts hS hv hc,
      ← contains_keys_anyParts hS hv hd, ← exists_or]
    simp only [List.mem_append, or_and_right]

end

/-! ### More bindings -/

mutual

/-- **A key under more bindings is a key under fewer.** -/
theorem contains_keys_of_extends (hS : KeySpace S) (hv : v ∈ S) (hext : q.Extends p) :
    ∀ c : KeyCondition, KeyOperand.ValuesIn q S c.operands → (c.keys ty q).contains v →
    (c.keys ty p).contains v
  | .always, _, h => h
  | .never, _, h => h
  | .test t negated, _, h => KeyTest.contains_keys_of_extends hext t negated h
  | .all parts, hops, h => by
    rw [contains_keys_all hS hv hops] at h
    rw [contains_keys_all hS hv (hops.of_extends hext)]
    exact fun c hc => contains_keys_of_mem hS hv hext parts hops c hc (h c hc)
  | .any parts, hops, h => by
    rw [contains_keys_any hS hv hops] at h
    rw [contains_keys_any hS hv (hops.of_extends hext)]
    obtain ⟨c, hc, hkeys⟩ := h
    exact ⟨c, hc, contains_keys_of_mem hS hv hext parts hops c hc hkeys⟩

theorem contains_keys_of_mem (hS : KeySpace S) (hv : v ∈ S) (hext : q.Extends p) :
    ∀ cs : List KeyCondition, KeyOperand.ValuesIn q S (operandsOf cs) → ∀ c ∈ cs,
    (c.keys ty q).contains v → (c.keys ty p).contains v
  | [], _, _, hc, _ => by simp at hc
  | d :: cs, hops, c, hc, h => by
    rcases List.mem_cons.mp hc with heq | hc
    · rw [heq] at h ⊢
      exact contains_keys_of_extends hS hv hext d (valuesIn_cons hops).1 h
    · exact contains_keys_of_mem hS hv hext cs (valuesIn_cons hops).2 c hc h

end

/-- **Unbound parameters only widen a condition.**  Under bindings that keep what others bind, a
condition holds no key that it does not hold under those; and combining two conditions, by
simplifying and flattening them, combines the keys that they hold. -/
theorem contains_keys_widen (hS : TransitiveOn S) (ty : ColumnType) :
    (∀ (c : KeyCondition) (p q : Bindings), q.Extends p → KeyOperand.ValuesIn q S c.operands →
      ∀ v ∈ S, (c.keys ty q).contains v → (c.keys ty p).contains v) ∧
    (∀ (c d : KeyCondition) (b : Bindings), KeyOperand.ValuesIn b S c.operands →
      KeyOperand.ValuesIn b S d.operands → ∀ v ∈ S,
      (((c.both d).keys ty b).contains v ↔ (c.keys ty b).contains v ∧ (d.keys ty b).contains v) ∧
      (((c.either d).keys ty b).contains v ↔
        (c.keys ty b).contains v ∨ (d.keys ty b).contains v)) := by
  have hspace := hS.keySpace
  have hsub : ∀ {b : Bindings} {ks : List KeyOperand}, KeyOperand.ValuesIn b S ks →
      KeyOperand.ValuesIn b (Value.withOthers S) ks := fun h k hk w hw => Or.inl (h k hk w hw)
  refine ⟨fun c p q hext hops v hv => ?_, fun c d b hc hd v hv => ?_⟩
  · exact contains_keys_of_extends hspace (Or.inl hv) hext c (hsub hops)
  · exact ⟨contains_keys_both hspace (Or.inl hv) (hsub hc) (hsub hd),
      contains_keys_either hspace (Or.inl hv) (hsub hc) (hsub hd)⟩

/-- Keys from a least one on, or null, but for a key to skip and for seven. -/
def pastLeast : KeyCondition :=
  .all [.any [.test (.compare .ge (.parameter "least")) false, .test .isNull false],
    .test (.oneOf [.parameter "skip", .literal (.int32 7)]) true]

/-- Bindings for the least key only. -/
def leastBound : Bindings := ⟨[("least", .int32 3)]⟩

/-- Bindings for the least key and the key to skip. -/
def bothBound : Bindings := ⟨leastBound.entries ++ [("skip", .int32 5)]⟩

/-- Keys below six. -/
def belowSix : KeyCondition := .test (.compare .lt (.literal (.int32 6))) false

/-- Seven is skipped only once the key to skip is known, as the list that names both is one test. -/
theorem contains_keys_widen_pastLeast :
    let S : Set Value := {v | ∀ x, v ≠ .float x}
    TransitiveOn S ∧ bothBound.Extends leastBound ∧
      KeyOperand.ValuesIn bothBound S pastLeast.operands ∧
      KeyOperand.ValuesIn bothBound S belowSix.operands ∧
      (∀ v ∈ S, (pastLeast.keys .int32 bothBound).contains v →
        (pastLeast.keys .int32 leastBound).contains v) ∧
      (pastLeast.keys .int32 leastBound).contains (.int32 7) ∧
      ¬ (pastLeast.keys .int32 bothBound).contains (.int32 7) ∧
      (∀ v ∈ S, ((pastLeast.both belowSix).keys .int32 bothBound).contains v ↔
        (pastLeast.keys .int32 bothBound).contains v ∧
          (belowSix.keys .int32 bothBound).contains v) := by
  intro S
  have hS : TransitiveOn S := Value.transitiveOn_of_ne_float fun _ hv => hv
  have hext : bothBound.Extends leastBound := Bindings.extends_append _ _
  have hmem : ∀ n : Int32, Value.int32 n ∈ S := fun n x h => by cases h
  have hops : KeyOperand.ValuesIn bothBound S pastLeast.operands := by
    intro k hk w hw
    simp only [pastLeast, operands, operandsOf, KeyTest.operands, List.append_nil, List.mem_append,
      List.mem_cons, List.not_mem_nil, or_false] at hk
    rcases hk with rfl | rfl | rfl <;> obtain rfl := Option.some.inj hw <;> exact hmem _
  have hsix : KeyOperand.ValuesIn bothBound S belowSix.operands := by
    intro k hk w hw
    obtain rfl := List.mem_singleton.mp hk
    obtain rfl := Option.some.inj hw
    exact hmem 6
  -- What the condition holds is read off its tests.
  have hseven : ∀ b : Bindings, KeyOperand.ValuesIn b S pastLeast.operands →
      (pastLeast.keys .int32 b).contains (.int32 7) = pastLeast.admits b (.int32 7) := fun b h =>
    (answers_keys hS.keySpace (Or.inl (hmem 7)) rfl pastLeast fun k hk w hw =>
      Or.inl (h k hk w hw)).contains_eq
  obtain ⟨hwiden, hcombine⟩ := contains_keys_widen hS .int32
  refine ⟨hS, hext, hops, hsix, hwiden pastLeast leastBound bothBound hext hops, ?_, ?_,
    fun v hv => (hcombine pastLeast belowSix bothBound hops hsix v hv).1⟩
  · rw [hseven _ (hops.of_extends hext)]
    decide
  · rw [hseven _ hops]
    decide

end KeyCondition

end QueryPlanner
