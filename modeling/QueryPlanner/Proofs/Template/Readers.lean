import QueryPlanner.Proofs.Computation
import QueryPlanner.Template.Directive

/-!
# Readers of tokens

Two statements about readers, each put together along the reader's own steps.  `Yields` says what a
result of a reader is like, if there is one; `Reads` says that there is one on certain tokens, and
which tokens are left after it.

## Main definitions

* `TokenReader.Yields` — every result has a property.
* `TokenReader.Reads` — on some tokens there is a result, with a property, and others are left.

## Main results

* `TokenReader.yields_bind`, `TokenReader.reads_bind` — one reader after another.
* `TokenReader.reads_qualifiedName` — a qualified name and its quote are read.
-/

namespace QueryPlanner

namespace Template

/-- The tokens still to be read are these, and they end with the text. -/
def TokenStream.Holds (s : TokenStream) (ts : List Token) : Prop :=
  s.tokens.map Located.value = ts ∧ s.failure = none

theorem TokenStream.Holds.length_eq {s : TokenStream} {ts : List Token} (h : s.Holds ts) :
    s.tokens.length = ts.length := by
  rw [← h.1, List.length_map]

namespace TokenReader

variable {α β : Type} {P : α → Prop} {Q : β → Prop}

/-! ### What a reader returns -/

/-- Every result of a reader has a property. -/
def Yields (P : α → Prop) (reader : TokenReader α) : Prop :=
  ∀ s a s', reader s = .ok (a, s') → P a

theorem yields_pure {a : α} (h : P a) : Yields P (pure a) := by
  intro s a' s' heq
  obtain ⟨rfl, -⟩ := Prod.mk.inj (Except.ok.inj heq)
  exact h

theorem yields_throw (e : ParseError) : Yields P (throw e) := by
  intro s a s' heq
  cases heq

theorem yields_bind {reader : TokenReader α} {next : α → TokenReader β} (hreader : Yields P reader)
    (hnext : ∀ a, P a → Yields Q (next a)) : Yields Q (reader >>= next) := by
  intro s b s' heq
  obtain ⟨⟨a, s₁⟩, ha, hb⟩ := bind_eq_ok_iff.mp heq
  exact hnext a (hreader s a s₁ ha) s₁ b s' hb

/-- What is read first may be anything. -/
theorem yields_then {reader : TokenReader α} {next : α → TokenReader β}
    (hnext : ∀ a, Yields Q (next a)) : Yields Q (reader >>= next) :=
  yields_bind (P := fun _ => True) (fun _ _ _ _ => trivial) fun a _ => hnext a

theorem yields_lift {result : Except ParseError α} (h : ∀ a, result = .ok a → P a) :
    Yields P (liftM result) := by
  intro s a s' heq
  obtain ⟨a', ha', heq⟩ := bind_eq_ok_iff.mp heq
  obtain ⟨rfl, -⟩ := Prod.mk.inj (Except.ok.inj heq)
  exact h a' ha'

/-! ### What a reader takes -/

/-- On the tokens `ts` a reader returns a result with a property and leaves the tokens `us`. -/
def Reads (ts us : List Token) (reader : TokenReader α) (P : α → Prop) : Prop :=
  ∀ s : TokenStream, s.Holds ts → ∃ a s', reader s = .ok (a, s') ∧ P a ∧ s'.Holds us

variable {ts us vs : List Token}

theorem reads_pure {a : α} (h : P a) : Reads ts ts (pure a) P :=
  fun s hs => ⟨a, s, rfl, h, hs⟩

theorem reads_bind {reader : TokenReader α} {next : α → TokenReader β}
    (hreader : Reads ts us reader P) (hnext : ∀ a, P a → Reads us vs (next a) Q) :
    Reads ts vs (reader >>= next) Q := by
  intro s hs
  obtain ⟨a, s₁, ha, hP, hs₁⟩ := hreader s hs
  obtain ⟨b, s₂, hb, hQ, hs₂⟩ := hnext a hP s₁ hs₁
  refine ⟨b, s₂, ?_, hQ, hs₂⟩
  exact bind_eq_ok_iff.mpr ⟨(a, s₁), ha, hb⟩

theorem reads_lift {result : Except ParseError α} {a : α} (h : result = .ok a) :
    Reads ts ts (liftM result) (· = a) :=
  fun s hs => ⟨a, s, by rw [h]; rfl, rfl, hs⟩

theorem reads_get : Reads ts ts (get : TokenReader TokenStream) (·.Holds ts) :=
  fun s hs => ⟨s, s, rfl, hs, hs⟩

theorem reads_peek? : Reads ts ts peek? (· = ts.head?) := by
  intro s hs
  refine ⟨_, s, rfl, ?_, hs⟩
  rw [← hs.1, List.head?_map]

theorem reads_next (t : Token) : Reads (t :: ts) ts next (·.value = t) := by
  rintro ⟨tokens, failure, stop⟩ ⟨htokens, hfailure⟩
  obtain ⟨token, tokens, rfl, rfl, rfl⟩ := List.map_eq_cons_iff.mp htokens
  exact ⟨token, _, rfl, rfl, rfl, hfailure⟩

theorem reads_finish : Reads [] [] finish fun _ => True := by
  rintro ⟨tokens, failure, stop⟩ ⟨htokens, hfailure⟩
  obtain rfl := List.map_eq_nil_iff.mp htokens
  obtain rfl := hfailure
  exact ⟨(), _, rfl, trivial, rfl, rfl⟩

theorem reads_ident (name : String) : Reads (.ident name :: ts) ts ident (·.value = name) := by
  refine reads_bind (reads_next _) fun token htoken => ?_
  rw [htoken]
  exact reads_pure rfl

theorem reads_text (content : String) :
    Reads (.text content :: ts) ts text (·.value = content) := by
  refine reads_bind (reads_next _) fun token htoken => ?_
  rw [htoken]
  exact reads_pure rfl

theorem reads_integer (value : Nat) : Reads (.integer value :: ts) ts integer (· = value) := by
  refine reads_bind (reads_next _) fun token htoken => ?_
  rw [htoken]
  exact reads_pure rfl

theorem reads_colon : Reads (.colon :: ts) ts colon fun _ => True := by
  refine reads_bind (reads_next _) fun token htoken => ?_
  rw [htoken]
  exact reads_pure trivial

theorem reads_comma : Reads (.comma :: ts) ts comma fun _ => True := by
  refine reads_bind (reads_next _) fun token htoken => ?_
  rw [htoken]
  exact reads_pure trivial

/-! ### Qualified names -/

/-- Further parts of a name are read as long as points follow. -/
theorem reads_nameParts {parts : List String} {count : Nat} (hcount : parts.length ≤ count)
    (hstop : ts.head? ≠ some .dot) :
    Reads (parts.flatMap (fun part => [.dot, .ident part]) ++ ts) ts (nameParts count)
      (· = parts) := by
  induction count generalizing parts with
  | zero =>
    obtain rfl := List.eq_nil_of_length_eq_zero (Nat.le_zero.mp hcount)
    exact reads_pure rfl
  | succ count ih =>
    refine reads_bind reads_peek? fun following hfollowing => ?_
    -- A dot says that one more part follows; the names end where there is none.
    cases parts with
    | nil =>
      rw [if_neg (by rw [hfollowing]; exact hstop)]
      exact reads_pure rfl
    | cons part parts =>
      rw [if_pos (by rw [hfollowing]; rfl)]
      refine reads_bind (reads_next _) fun _ _ => reads_bind (reads_ident part) fun name hname => ?_
      refine reads_bind (ih (Nat.le_of_succ_le_succ hcount)) fun others hothers => ?_
      exact reads_pure (by rw [hname, hothers])

theorem reads_quote? (quote : Char) :
    Reads (.comma :: .text (String.singleton quote) :: ts) ts quote? (· = some quote) := by
  refine reads_bind reads_peek? fun following hfollowing => ?_
  rw [if_pos (by rw [hfollowing]; rfl)]
  refine reads_bind (reads_next _) fun _ _ => reads_bind (reads_text _) fun content hcontent => ?_
  rw [hcontent, String.toList_singleton]
  exact reads_pure rfl

/-- The tokens of a qualified name and its quote. -/
def nameTokens (q : QualifiedName) : List Token :=
  match q.database with
  | some database =>
    [.ident database, .dot, .ident q.schema, .dot, .ident q.name, .comma,
      .text (String.singleton q.quote)]
  | none => [.ident q.schema, .dot, .ident q.name, .comma, .text (String.singleton q.quote)]

theorem reads_qualifiedName (q : QualifiedName) (directive : Span) :
    Reads (nameTokens q) [] (qualifiedName directive) (· = q) := by
  obtain ⟨database, schema, name, quote⟩ := q
  have hstop : [Token.comma, .text (String.singleton quote)].head? ≠ some .dot := by simp
  cases database with
  | none =>
    refine reads_bind (reads_ident schema) fun first hfirst => reads_bind reads_get fun s hs => ?_
    -- Each further part takes tokens, so their number bounds the number of parts.
    have hcount : [name].length ≤ s.tokens.length := by simp [hs.length_eq]
    refine reads_bind (reads_nameParts hcount hstop) fun others hothers => ?_
    refine reads_bind (reads_quote? quote) fun given hgiven => ?_
    rw [hfirst, hothers, hgiven]
    exact reads_pure rfl
  | some database =>
    refine reads_bind (reads_ident database) fun first hfirst => reads_bind reads_get fun s hs => ?_
    have hcount : [schema, name].length ≤ s.tokens.length := by simp [hs.length_eq]
    refine reads_bind (reads_nameParts hcount hstop) fun others hothers => ?_
    refine reads_bind (reads_quote? quote) fun given hgiven => ?_
    rw [hfirst, hothers, hgiven]
    exact reads_pure rfl

end TokenReader

end Template

end QueryPlanner
