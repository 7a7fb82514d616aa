import Mathlib.Data.String.Basic
import QueryPlanner.Proofs.Template.Scoping
import QueryPlanner.Proofs.Template.Tokens

/-!
# Errors point into the source

A template is read in pieces: directives out of the text, tokens out of directives, and nested
templates out of tokens.  Each piece is read with the offset of its first byte, and errors are
reported in offsets of the whole source.  As long as a piece stands in the source as it is read, an
error marks whole characters of it.  Resolving the escapes of a quoted text only shortens it, so an
error in a nested template stays inside the quotes even where its offsets are no longer exact.

Both are said at once of an error and the text it was found in (`ParseError.PointsInto`), and
carried from a piece to the text around it.

## Main definitions

* `Span.Marks` — a span marks a piece of a text.
* `ParseError.Pinpoints` — an error marks characters of a text, and the name if it reports a
  directive.
* `ParseError.PointsInto` — an error stays inside a text, and pinpoints it if there are no escapes.
* `TokenReader.Blames` — a reader of tokens fails with errors that point into a text.

## Main results

* `ParseError.PointsInto.of_piece` — errors in a piece of a text are errors in the text.
* `ParseError.PointsInto.of_unescape` — resolving escapes keeps errors inside a quoted text.
* `Token.lex_spans` — tokens and lexical errors are marked where they stand.
* `Directive.pointsInto_of_parse`, `pointsInto_of_parseRest` — errors of directives and of
  templates.
* `span_of_parse_error` — **errors point into the source**, at character boundaries if it has no
  backslash.
-/

namespace QueryPlanner

namespace Template

/-! ### Sizes of texts -/

theorem byteSize_append (xs ys : List Char) : byteSize (xs ++ ys) = byteSize xs + byteSize ys := by
  induction xs with
  | nil => simp [byteSize]
  | cons c cs ih => rw [List.cons_append, byteSize, byteSize, ih, Nat.add_assoc]

theorem byteSize_eq_utf8Len (cs : List Char) : byteSize cs = String.utf8Len cs := by
  induction cs with
  | nil => rfl
  | cons c cs ih => rw [byteSize, ih, String.utf8Len, Nat.add_comm]

theorem byteSize_toList (s : String) : byteSize s.toList = s.utf8ByteSize := by
  rw [byteSize_eq_utf8Len, ← String.utf8ByteSize_ofList, String.ofList_toList]

namespace Token

/-- Resolving escapes shortens a text. -/
theorem byteSize_unescape_le (cs : List Char) : byteSize (unescape cs) ≤ byteSize cs := by
  fun_induction unescape cs with
  | case1 => exact Nat.le_refl _
  | case2 cs ih | case3 cs ih | case4 cs ih | case5 cs ih | case6 cs ih =>
    exact Nat.add_le_add (by decide) (Nat.le_add_left_of_le ih)
  | case7 c cs _ _ _ _ _ ih => exact Nat.add_le_add_left ih _

/-- Without a backslash there is nothing to resolve. -/
theorem unescape_of_not_mem {cs : List Char} (h : '\\' ∉ cs) : unescape cs = cs := by
  fun_induction unescape cs with
  | case1 => rfl
  | case7 c cs _ _ _ _ _ ih => rw [ih fun hc => h (by simp [hc])]
  | _ => simp at h

end Token

/-! ### Marked pieces -/

/-- A span marks a piece of a text whose first byte has the offset `base`. -/
def Span.Marks (span : Span) (base : Nat) (text piece : List Char) : Prop :=
  ∃ before after, text = before ++ piece ++ after ∧
    span = ⟨base + byteSize before, base + byteSize before + byteSize piece⟩

theorem Span.marks_all (base : Nat) (text : List Char) :
    Span.Marks ⟨base, base + byteSize text⟩ base text text :=
  ⟨[], [], by simp, rfl⟩

/-- What a span marks in a piece of a text it marks in the text. -/
theorem Span.Marks.of_piece {span : Span} {base : Nat} {text before part after piece : List Char}
    (h : span.Marks (base + byteSize before) part piece) (htext : text = before ++ part ++ after) :
    span.Marks base text piece := by
  obtain ⟨front, back, rfl, rfl⟩ := h
  refine ⟨before ++ front, back ++ after, by simp [htext], ?_⟩
  rw [byteSize_append, Nat.add_assoc]

namespace ParseError

/-- An error marks characters of a text; if it reports an unknown directive, it marks the name. -/
def Pinpoints (e : ParseError) (base : Nat) (text : List Char) : Prop :=
  ∃ piece, e.span.Marks base text piece ∧
    ∀ name : String, e.message = s!"unknown directive '{name}'" → piece = name.toList

/-- An error stays inside a text whose first byte has the offset `base`, and pinpoints it if the
text has no escapes. -/
structure PointsInto (e : ParseError) (base : Nat) (text : List Char) : Prop where
  base_le : base ≤ e.span.start
  start_le : e.span.start ≤ e.span.stop
  stop_le : e.span.stop ≤ base + byteSize text
  pinpoints : '\\' ∉ text → e.Pinpoints base text

variable {e : ParseError} {base : Nat} {text : List Char}

theorem Pinpoints.pointsInto (h : e.Pinpoints base text) : e.PointsInto base text := by
  have hpin := h
  obtain ⟨piece, ⟨before, after, htext, hspan⟩, -⟩ := h
  have hsize : byteSize text = byteSize before + byteSize piece + byteSize after := by
    rw [htext, byteSize_append, byteSize_append]
  have hstart : e.span.start = base + byteSize before := by rw [hspan]
  have hstop : e.span.stop = e.span.start + byteSize piece := by rw [hspan]
  exact ⟨by omega, by omega, by omega, fun _ => hpin⟩

theorem Pinpoints.of_piece {before part after : List Char}
    (h : e.Pinpoints (base + byteSize before) part) (htext : text = before ++ part ++ after) :
    e.Pinpoints base text := by
  obtain ⟨piece, hmarks, hname⟩ := h
  exact ⟨piece, hmarks.of_piece htext, hname⟩

/-- **Errors in a piece of a text are errors in the text.** -/
theorem PointsInto.of_piece {before part after : List Char}
    (h : e.PointsInto (base + byteSize before) part) (htext : text = before ++ part ++ after) :
    e.PointsInto base text where
  base_le := Nat.le_trans (Nat.le_add_right _ _) h.base_le
  start_le := h.start_le
  stop_le := by
    have := h.stop_le
    rw [htext, byteSize_append, byteSize_append]
    omega
  pinpoints := by
    intro hescape
    exact (h.pinpoints fun hpart => hescape (by simp [htext, hpart])).of_piece htext

/-- **Resolving escapes keeps errors inside a quoted text**, at their place if there are none. -/
theorem PointsInto.of_unescape {quoted : List Char}
    (h : e.PointsInto base (Token.unescape quoted)) : e.PointsInto base quoted where
  base_le := h.base_le
  start_le := h.start_le
  stop_le := Nat.le_trans h.stop_le (Nat.add_le_add_left (Token.byteSize_unescape_le quoted) base)
  pinpoints := by
    intro hescape
    have hpin := h.pinpoints
    rw [Token.unescape_of_not_mem hescape] at hpin
    exact hpin hescape

/-! ### Messages -/

/-- A message begins with its first part. -/
theorem take_toList_append {s : String} (h : 3 ≤ s.toList.length) (t : String) :
    (s ++ t).toList.take 3 = s.toList.take 3 := by
  rw [String.toList_append, List.take_append_of_le_length h]

/-- A message that begins otherwise reports no unknown directive. -/
theorem ne_unknown {message : String} (h : message.toList.take 3 ≠ "unk".toList) (name : String) :
    message ≠ s!"unknown directive '{name}'" := by
  rintro rfl
  refine h ?_
  rw [String.append_assoc, take_toList_append (by decide)]
  decide

theorem unknown_inj {name other : String}
    (h : s!"unknown directive '{name}'" = s!"unknown directive '{other}'") : name = other :=
  (String.append_right_inj _).mp ((String.append_left_inj _).mp h)

/-- An error with another message pinpoints what it marks. -/
theorem pinpoints_of_marks {message : String} {span : Span} {hint : Option String}
    {piece : List Char} (hspan : span.Marks base text piece)
    (hmessage : message.toList.take 3 ≠ "unk".toList) : Pinpoints ⟨message, span, hint⟩ base text :=
  ⟨piece, hspan, fun name hname => ne_unknown hmessage name hname |>.elim⟩

end ParseError

/-! ### Tokens -/

namespace Token

/-- The characters a token is read from: those of an identifier, and a quoted text with its escapes.
-/
def IsReadFrom (lexeme : List Char) : Token → Prop
  | .ident name => lexeme = name.toList
  | .text content => ∃ quoted, lexeme = '"' :: quoted ++ ['"'] ∧ content.toList = unescape quoted
  | _ => True

/-- A token stands for the characters that were read. -/
theorem isReadFrom_of_read {c : Char} {cs : List Char} {t : Token}
    (h : (read c cs).token = some t) : t.IsReadFrom (read c cs).lexeme := by
  revert h
  unfold read
  split
  · rintro ⟨⟩
    trivial
  split
  · rintro ⟨⟩
    trivial
  split
  · rintro ⟨⟩
    trivial
  split
  · -- A quoted text, if its closing quote is found.
    split
    · next content rest _ =>
      rintro ⟨⟩
      exact ⟨content, rfl, String.toList_ofList⟩
    · rintro ⟨⟩
  split
  · rintro ⟨⟩
    exact String.toList_ofList.symm
  split
  · -- A number, if it is small enough.
    simp only
    split
    · rintro ⟨⟩
      trivial
    · rintro ⟨⟩
  · rintro ⟨⟩

end Token

/-- A token of a text, marked where it stands. -/
def Located.IsTokenOf (t : Located Token) (base : Nat) (text : List Char) : Prop :=
  ∃ lexeme, t.span.Marks base text lexeme ∧ t.value.IsReadFrom lexeme

theorem Located.IsTokenOf.of_piece {t : Located Token} {base : Nat}
    {text before part after : List Char} (h : t.IsTokenOf (base + byteSize before) part)
    (htext : text = before ++ part ++ after) : t.IsTokenOf base text := by
  obtain ⟨lexeme, hmarks, hread⟩ := h
  exact ⟨lexeme, hmarks.of_piece htext, hread⟩

/-- A text is its blanks, what is read behind them and what is left. -/
theorem Token.eq_blanks_append {c : Char} {cs rest lexeme after : List Char}
    (hcs : cs.dropWhile isBlank = c :: rest) (hread : lexeme ++ after = c :: rest) :
    cs = cs.takeWhile isBlank ++ lexeme ++ after := by
  rw [List.append_assoc, hread, ← hcs, List.takeWhile_append_dropWhile]

/-- **Tokens and lexical errors are marked where they stand.** -/
theorem Token.lex_spans (extent : Extent) (base : Nat) (cs : List Char) :
    (∀ t ∈ (lex extent base cs).1, t.IsTokenOf base cs) ∧
      ∀ e, (lex extent base cs).2 = some e → e.Pinpoints base cs := by
  fun_induction lex extent base cs with
  | case1 => exact ⟨by simp, fun e he => by cases he⟩
  | case2 base cs c rest hcs start reading htoken blamed =>
    refine ⟨by simp, fun e he => ?_⟩
    obtain rfl := Option.some.inj he
    -- Of the extent nothing is known but that it is a beginning of the text left.
    obtain ⟨after, hafter⟩ := extent.isPrefix (c :: rest)
    have hmarks : Span.Marks ⟨start, start + byteSize blamed⟩ base cs blamed :=
      ⟨cs.takeWhile isBlank, after, eq_blanks_append hcs hafter, rfl⟩
    refine ParseError.pinpoints_of_marks hmarks ?_
    rw [String.append_assoc, ParseError.take_toList_append (by decide)]
    decide
  | case3 base cs c rest hcs start reading token htoken span tokens failure hlex ih =>
    have htext : cs = cs.takeWhile isBlank ++ reading.lexeme ++ (read c rest).rest :=
      eq_blanks_append hcs (lexeme_append_rest (by rw [htoken]; rfl))
    -- The tokens that follow are those of the text left, a piece with nothing behind it.
    have hsplit : cs = (cs.takeWhile isBlank ++ reading.lexeme) ++ (read c rest).rest ++ [] := by
      rw [List.append_nil, ← htext]
    have hstop : span.stop = base + byteSize (cs.takeWhile isBlank ++ reading.lexeme) := by
      rw [byteSize_append, ← Nat.add_assoc]
    rw [hlex, hstop] at ih
    refine ⟨fun t ht => ?_, fun e he => (ih.2 e he).of_piece hsplit⟩
    rcases List.mem_cons.mp ht with rfl | ht
    · exact ⟨reading.lexeme, ⟨cs.takeWhile isBlank, _, htext, rfl⟩, isReadFrom_of_read htoken⟩
    · exact (ih.1 t ht).of_piece hsplit

/-! ### Readers of tokens -/

/-- The tokens still to be read are tokens of a text, and so is the error or the end after them. -/
structure TokenStream.Over (s : TokenStream) (base : Nat) (text : List Char) : Prop where
  tokens : ∀ t ∈ s.tokens, t.IsTokenOf base text
  failure : ∀ e, s.failure = some e → e.Pinpoints base text
  stop : Span.Marks ⟨s.stop, s.stop⟩ base text []

namespace TokenReader

variable {α β : Type} {P : α → Prop} {Q : β → Prop} {base : Nat} {text : List Char}

/-- On tokens of a text a reader fails with errors that point into the text; otherwise its result
has a property, and tokens of the text are left. -/
def Blames (base : Nat) (text : List Char) (P : α → Prop) (reader : TokenReader α) : Prop :=
  ∀ s : TokenStream, s.Over base text →
    (∀ e, reader s = .error e → e.PointsInto base text) ∧
      ∀ a s', reader s = .ok (a, s') → P a ∧ s'.Over base text

/-- A reader that never fails. -/
theorem blames_of_ok {reader : TokenReader α}
    (h : ∀ s : TokenStream, s.Over base text → ∃ a s', reader s = .ok (a, s') ∧ P a ∧
      s'.Over base text) :
    Blames base text P reader := by
  intro s hs
  obtain ⟨a, s', hrun, ha, hs'⟩ := h s hs
  rw [hrun]
  refine ⟨fun e he => (by cases he), fun a' s'' heq => ?_⟩
  obtain ⟨rfl, rfl⟩ := Prod.mk.inj (Except.ok.inj heq)
  exact ⟨ha, hs'⟩

/-- A reader that fails with an error that points into the text. -/
theorem blames_of_error {reader : TokenReader α}
    (h : ∀ s : TokenStream, s.Over base text → ∃ e, reader s = .error e ∧ e.PointsInto base text) :
    Blames base text P reader := by
  intro s hs
  obtain ⟨e, hrun, he⟩ := h s hs
  rw [hrun]
  refine ⟨fun e' he' => ?_, fun a s' heq => (by cases heq)⟩
  obtain rfl := Except.error.inj he'
  exact he

theorem blames_pure {a : α} (h : P a) : Blames base text P (pure a) :=
  blames_of_ok fun s hs => ⟨a, s, rfl, h, hs⟩

theorem blames_throw {e : ParseError} (h : e.PointsInto base text) : Blames base text P (throw e) :=
  blames_of_error fun _ _ => ⟨e, rfl, h⟩

theorem blames_bind {reader : TokenReader α} {next : α → TokenReader β}
    (hreader : Blames base text P reader) (hnext : ∀ a, P a → Blames base text Q (next a)) :
    Blames base text Q (reader >>= next) := by
  intro s hs
  obtain ⟨herror, hok⟩ := hreader s hs
  constructor
  · intro e he
    rcases bind_eq_error_iff.mp he with he | ⟨⟨a, s₁⟩, ha, he⟩
    · exact herror e he
    · obtain ⟨hP, hs₁⟩ := hok a s₁ ha
      exact (hnext a hP s₁ hs₁).1 e he
  · intro b s' hb
    obtain ⟨⟨a, s₁⟩, ha, hb⟩ := bind_eq_ok_iff.mp hb
    obtain ⟨hP, hs₁⟩ := hok a s₁ ha
    exact (hnext a hP s₁ hs₁).2 b s' hb

theorem blames_lift {result : Except ParseError α}
    (h : ∀ e, result = .error e → e.PointsInto base text) :
    Blames base text (fun _ => True) (liftM result) := by
  cases result with
  | error e => exact blames_of_error fun _ _ => ⟨e, rfl, h e rfl⟩
  | ok a => exact blames_of_ok fun s hs => ⟨a, s, rfl, trivial, hs⟩

theorem blames_get : Blames base text (fun _ => True) (get : TokenReader TokenStream) :=
  blames_of_ok fun s hs => ⟨s, s, rfl, trivial, hs⟩

theorem blames_peek? : Blames base text (fun _ => True) peek? :=
  blames_of_ok fun s hs => ⟨_, s, rfl, trivial, hs⟩

theorem blames_next : Blames base text (·.IsTokenOf base text) next := by
  rintro ⟨tokens, failure, stop⟩ hs
  cases tokens with
  | cons token tokens =>
    refine ⟨fun e he => (by cases he), fun t s' heq => ?_⟩
    obtain ⟨rfl, rfl⟩ := Prod.mk.inj (Except.ok.inj heq)
    exact ⟨hs.tokens token (by simp), fun u hu => hs.tokens u (by simp [hu]), hs.failure, hs.stop⟩
  | nil =>
    refine ⟨fun e he => ?_, fun t s' heq => (by cases failure <;> cases heq)⟩
    cases failure with
    | some f =>
      obtain rfl := Except.error.inj he
      exact (hs.failure f rfl).pointsInto
    | none =>
      obtain rfl := Except.error.inj he
      exact (ParseError.pinpoints_of_marks hs.stop (by decide)).pointsInto

/-- An error at a token that reports no unknown directive. -/
theorem pointsInto_of_token {t : Located Token} (ht : t.IsTokenOf base text) {message : String}
    {hint : Option String} (hmessage : message.toList.take 3 ≠ "unk".toList) :
    ParseError.PointsInto ⟨message, t.span, hint⟩ base text := by
  obtain ⟨lexeme, hmarks, -⟩ := ht
  exact (ParseError.pinpoints_of_marks hmarks hmessage).pointsInto

theorem blames_finish : Blames base text (fun _ => True) finish := by
  rintro ⟨tokens, failure, stop⟩ hs
  cases tokens with
  | cons token tokens =>
    -- A token is left over, and the error marks it.
    refine ⟨fun e he => ?_, fun t s' heq => (by cases heq)⟩
    obtain rfl := Except.error.inj he
    refine pointsInto_of_token (hs.tokens token (by simp)) ?_
    rw [String.append_assoc, ParseError.take_toList_append (by decide)]
    decide
  | nil =>
    cases failure with
    | some f =>
      -- The lexer stopped here, and its error is passed on.
      refine ⟨fun e he => ?_, fun t s' heq => (by cases heq)⟩
      obtain rfl := Except.error.inj he
      exact (hs.failure f rfl).pointsInto
    | none =>
      refine ⟨fun e he => (by cases he), fun a s' heq => ?_⟩
      obtain ⟨rfl, rfl⟩ := Prod.mk.inj (Except.ok.inj heq)
      exact ⟨trivial, hs⟩

/-- An error about an unexpected token marks the token, with a hint or without. -/
theorem pointsInto_unexpected {t : Located Token} (ht : t.IsTokenOf base text) (expected : String)
    (hint : Option String) :
    ParseError.PointsInto { unexpected expected t with hint } base text := by
  refine pointsInto_of_token ht ?_
  rw [unexpected, ParseError.plain, String.append_assoc, String.append_assoc,
    ParseError.take_toList_append (by decide)]
  decide

theorem blames_ident :
    Blames base text (fun name => name.span.Marks base text name.value.toList) ident := by
  refine blames_bind blames_next fun token htoken => ?_
  split
  · next name hname =>
    obtain ⟨lexeme, hmarks, hread⟩ := htoken
    rw [hname] at hread
    refine blames_pure ?_
    rwa [show lexeme = name.toList from hread] at hmarks
  · exact blames_throw (pointsInto_unexpected htoken _ none)

/-- A quoted text is marked with its quotes. -/
theorem blames_text : Blames base text (fun content => ∃ quoted,
    content.span.Marks base text ('"' :: quoted ++ ['"']) ∧
      content.value.toList = Token.unescape quoted)
    TokenReader.text := by
  refine blames_bind blames_next fun token htoken => ?_
  split
  · next content hcontent =>
    obtain ⟨lexeme, hmarks, hread⟩ := htoken
    rw [hcontent] at hread
    obtain ⟨quoted, rfl, hvalue⟩ := hread
    exact blames_pure ⟨quoted, hmarks, hvalue⟩
  · exact blames_throw (pointsInto_unexpected htoken _ none)

theorem blames_integer : Blames base text (fun _ => True) integer := by
  refine blames_bind blames_next fun token htoken => ?_
  split
  · exact blames_pure trivial
  · exact blames_throw (pointsInto_unexpected htoken _ none)

theorem blames_colon : Blames base text (fun _ => True) colon := by
  refine blames_bind blames_next fun token htoken => ?_
  split
  · exact blames_pure trivial
  · exact blames_throw (pointsInto_unexpected htoken _ (some _))
  · exact blames_throw (pointsInto_unexpected htoken _ none)

theorem blames_comma : Blames base text (fun _ => True) comma := by
  refine blames_bind blames_next fun token htoken => ?_
  split
  · exact blames_pure trivial
  · exact blames_throw (pointsInto_unexpected htoken _ none)

theorem blames_nameParts (count : Nat) : Blames base text (fun _ => True) (nameParts count) := by
  induction count with
  | zero => exact blames_pure trivial
  | succ count ih =>
    refine blames_bind blames_peek? fun following _ => ?_
    split
    · refine blames_bind blames_next fun _ _ => blames_bind blames_ident fun _ _ => ?_
      exact blames_bind ih fun _ _ => blames_pure trivial
    · exact blames_pure trivial

theorem blames_quote? : Blames base text (fun _ => True) quote? := by
  refine blames_bind blames_peek? fun following _ => ?_
  split
  · refine blames_bind blames_next fun _ _ => blames_bind blames_text fun content hcontent => ?_
    obtain ⟨quoted, hmarks, -⟩ := hcontent
    split
    · exact blames_pure trivial
    · exact blames_throw (ParseError.pinpoints_of_marks hmarks (by decide)).pointsInto
  · exact blames_pure trivial

theorem blames_qualifiedName {span : Span} {piece : List Char}
    (hspan : span.Marks base text piece) :
    Blames base text (fun _ => True) (qualifiedName span) := by
  refine blames_bind blames_ident fun _ _ => blames_bind blames_get fun _ _ => ?_
  refine blames_bind (blames_nameParts _) fun _ _ => blames_bind blames_quote? fun _ _ => ?_
  split
  · exact blames_pure trivial
  · exact blames_pure trivial
  · exact blames_throw (ParseError.pinpoints_of_marks hspan (by decide)).pointsInto

end TokenReader

/-! ### Directives -/

/-- A reader of nested templates whose errors point into what it reads. -/
def Nested.Blames (nested : Nested) : Prop :=
  ∀ base inCycle cs e, nested base inCycle cs = .error e → e.PointsInto base cs

namespace Directive

open TokenReader

variable {nested : Nested} {base : Nat} {text : List Char}

/-- An error in a nested template stays between the quotes of its text. -/
theorem blames_template (hnested : nested.Blames) (inCycle : Bool) :
    Blames base text (fun _ => True) (template nested inCycle) := by
  refine blames_bind blames_text fun source hsource => blames_lift fun e he => ?_
  obtain ⟨quoted, ⟨before, after, htext, hspan⟩, hvalue⟩ := hsource
  have hinner := hnested _ _ _ e he
  rw [hvalue] at hinner
  have hstart : source.span.start + 1 = base + byteSize (before ++ ['"']) := by
    rw [hspan, byteSize_append before, ← Nat.add_assoc]
    rfl
  rw [hstart] at hinner
  have hquoted : text = (before ++ ['"']) ++ quoted ++ '"' :: after := by simp [htext]
  exact hinner.of_unescape.of_piece hquoted

variable {span : Span} {piece : List Char}

theorem blames_arguments (hnested : nested.Blames) (inCycle : Bool)
    (hspan : span.Marks base text piece) {head : Located String}
    (hhead : head.span.Marks base text head.value.toList) :
    Blames base text (fun _ => True) (arguments nested span inCycle head) := by
  unfold arguments
  split
  · exact blames_bind (blames_qualifiedName hspan) fun _ _ => blames_pure trivial
  · refine blames_bind blames_ident fun _ _ => blames_bind blames_comma fun _ _ => ?_
    refine blames_bind (blames_template hnested inCycle) fun _ _ =>
      blames_bind blames_comma fun _ _ => ?_
    exact blames_bind (blames_template hnested inCycle) fun _ _ => blames_pure trivial
  · refine blames_bind blames_ident fun _ _ => blames_bind blames_comma fun _ _ => ?_
    refine blames_bind (blames_template hnested true) fun _ _ =>
      blames_bind blames_comma fun _ _ => ?_
    refine blames_bind blames_text fun _ _ => blames_bind blames_peek? fun _ _ => ?_
    split
    · refine blames_bind blames_comma fun _ _ => ?_
      exact blames_bind (blames_template hnested inCycle) fun _ _ => blames_pure trivial
    · exact blames_pure trivial
  · refine blames_bind blames_integer fun _ _ => ?_
    split
    · exact blames_pure trivial
    · refine blames_throw (ParseError.pinpoints_of_marks hspan ?_).pointsInto
      dsimp only [ParseError.plain]
      decide
  · exact blames_bind (blames_template hnested inCycle) fun _ _ => blames_pure trivial
  · exact blames_bind blames_text fun _ _ => blames_pure trivial
  · exact blames_bind blames_text fun _ _ => blames_pure trivial
  · -- The name that is reported is the one that was read.
    refine blames_throw (ParseError.Pinpoints.pointsInto ⟨_, hhead, fun name hname => ?_⟩)
    rw [ParseError.unknown_inj hname]

theorem blames_directive (hnested : nested.Blames) (inCycle : Bool)
    (hspan : span.Marks base text piece) :
    Blames base text (fun _ => True) (directive nested span inCycle) := by
  refine blames_bind blames_ident fun head hhead => blames_bind blames_peek? fun _ _ => ?_
  split
  · exact blames_bind blames_finish fun _ _ => blames_pure trivial
  · refine blames_bind blames_colon fun _ _ => ?_
    refine blames_bind (blames_arguments hnested inCycle hspan hhead) fun _ _ => ?_
    exact blames_bind blames_finish fun _ _ => blames_pure trivial

/-- The tokens of a content are tokens of the directive around it. -/
theorem over_ofText (extent : Token.Extent) (base : Nat) (content : List Char) :
    (TokenStream.ofText extent (base + 1) content).Over base ('{' :: content ++ ['}']) := by
  obtain ⟨htokens, hfailure⟩ := Token.lex_spans extent (base + byteSize ['{']) content
  refine ⟨fun t ht => (htokens t ht).of_piece rfl, fun e he => (hfailure e he).of_piece rfl, ?_⟩
  refine ⟨'{' :: content, ['}'], by simp, ?_⟩
  have hstop : (TokenStream.ofText extent (base + 1) content).stop =
      base + byteSize ('{' :: content) := Nat.add_assoc base 1 _
  rw [hstop]
  rfl

/-- A directive is as long as its content and two braces. -/
theorem byteSize_braces (base : Nat) (content : List Char) :
    base + byteSize ('{' :: content ++ ['}']) = base + 2 + byteSize content := by
  have hopen : ('{').utf8Size = 1 := rfl
  have hclose : ('}').utf8Size = 1 := rfl
  simp only [List.cons_append, byteSize, byteSize_append]
  omega

/-- **Errors of a directive point into it**, braces included. -/
theorem pointsInto_of_parse {extent : Token.Extent} (hnested : nested.Blames) {base : Nat}
    {inCycle : Bool} {content : List Char} {e : ParseError}
    (h : parse extent nested ⟨base, base + 2 + byteSize content⟩ inCycle content = .error e) :
    e.PointsInto base ('{' :: content ++ ['}']) := by
  have hspan : Span.Marks ⟨base, base + 2 + byteSize content⟩ base ('{' :: content ++ ['}'])
      ('{' :: content ++ ['}']) := by
    rw [← byteSize_braces]
    exact Span.marks_all _ _
  simp only [parse] at h
  split at h
  · obtain rfl := Except.error.inj h
    exact (ParseError.pinpoints_of_marks hspan (by decide)).pointsInto
  · rcases bind_eq_error_iff.mp h with herror | ⟨_, _, hok⟩
    · exact (blames_directive hnested inCycle hspan _ (over_ofText extent base content)).1 e herror
    · cases hok

end Directive

/-! ### Templates -/

/-- A directive is its content and the closing brace, with the rest of the text behind. -/
theorem eq_of_closing? {inText isEscaped : Bool} {cs content rest : List Char}
    (h : closing? inText isEscaped cs = some (content, rest)) : cs = content ++ '}' :: rest := by
  induction cs generalizing inText isEscaped content with
  | nil => cases h
  | cons c cs ih =>
    -- Every character but the closing brace is put in front of what is found behind it.
    have step {a b : Bool}
        (h : (closing? a b cs).map (fun r => (c :: r.1, r.2)) = some (content, rest)) :
        c :: cs = content ++ '}' :: rest := by
      obtain ⟨r, hr, heq⟩ := Option.map_eq_some_iff.mp h
      obtain ⟨rfl, rfl⟩ := Prod.mk.inj heq
      rw [List.cons_append, ← ih hr]
    cases isEscaped with
    | true => exact step h
    | false =>
      simp only [closing?] at h
      split at h
      · next hbrace =>
        obtain ⟨rfl, rfl⟩ := Prod.mk.inj (Option.some.inj h)
        obtain rfl : c = '}' := by simpa using (Bool.and_eq_true_iff.mp hbrace).1
        rfl
      · split at h
        · exact step h
        · split at h <;> exact step h

/-- **Errors of a template point into its text**, if those of the nested ones do. -/
theorem pointsInto_of_parseRest {extent : Token.Extent} {nested : Nested} (hnested : nested.Blames)
    {inCycle : Bool} {base : Nat} {literal cs : List Char} {e : ParseError}
    (h : parseRest extent nested inCycle base literal cs = .error e) : e.PointsInto base cs := by
  -- What is read behind some characters points into the text with these in front.
  have behind {base : Nat} (front : List Char) {part : List Char}
      (hpart : e.PointsInto (base + byteSize front) part) : e.PointsInto base (front ++ part) :=
    hpart.of_piece (List.append_nil _).symm
  fun_induction parseRest extent nested inCycle base literal cs with
  | case1 => cases h
  | case2 base literal rest ih => exact behind ['{', '{'] (ih h)
  | case3 base literal rest ih => exact behind ['}', '}'] (ih h)
  | case4 base literal rest _ =>
    obtain rfl := Except.error.inj h
    have hspan : Span.Marks ⟨base, base + 1⟩ base ('}' :: rest) ['}'] := ⟨[], rest, rfl, rfl⟩
    refine (ParseError.pinpoints_of_marks hspan ?_).pointsInto
    dsimp only [ParseError.plain]
    decide
  | case5 base literal rest _ _ =>
    obtain rfl := Except.error.inj h
    have hspan : Span.Marks ⟨base, base + 1 + byteSize rest⟩ base ('{' :: rest) ('{' :: rest) := by
      rw [Nat.add_assoc]
      exact Span.marks_all base ('{' :: rest)
    exact (ParseError.pinpoints_of_marks hspan (by decide)).pointsInto
  | case6 base literal rest _ content after hclosing stop =>
    rename_i ih
    have htext : '{' :: rest = [] ++ ('{' :: content ++ ['}']) ++ after := by
      rw [eq_of_closing? hclosing]
      simp
    rcases bind_eq_error_iff.mp h with hdirective | ⟨node, _, h⟩
    · have hinner : e.PointsInto (base + byteSize []) ('{' :: content ++ ['}']) :=
        Directive.pointsInto_of_parse hnested hdirective
      exact hinner.of_piece htext
    · rcases bind_eq_error_iff.mp h with hrest | ⟨nodes, _, h⟩
      · have hinner := ih hrest
        have hstop : stop = base + byteSize ('{' :: content ++ ['}']) := by
          rw [Directive.byteSize_braces]
        rw [hstop] at hinner
        rw [htext]
        exact behind _ hinner
      · cases h
  | case7 base literal c rest _ _ _ _ ih => exact behind [c] (ih h)

theorem blames_parseWithin (extent : Token.Extent) (depth : Nat) :
    (parseWithin extent depth).Blames := by
  induction depth with
  | zero =>
    intro _ _ _ _ h
    cases h
  | succ depth ih =>
    intro _ _ _ _ h
    exact pointsInto_of_parseRest ih h

/-- The ends of what a span marks are character boundaries, and it is the text between them. -/
theorem Span.Marks.extract_eq {span : Span} {source : String} {piece : List Char}
    (h : span.Marks 0 source.toList piece) :
    String.Pos.Raw.IsValid source ⟨span.start⟩ ∧ String.Pos.Raw.IsValid source ⟨span.stop⟩ ∧
      String.Pos.Raw.extract source ⟨span.start⟩ ⟨span.stop⟩ = String.ofList piece := by
  obtain ⟨before, after, htext, rfl⟩ := h
  have hsource : source = String.ofList (before ++ piece ++ after) := by
    rw [← htext, String.ofList_toList]
  -- Both offsets are lengths of beginnings of the text, hence between characters.
  simp only [byteSize_eq_utf8Len, Nat.zero_add]
  refine ⟨?_, ?_, ?_⟩
  · refine String.Pos.Raw.isValid_iff_exists_append.mpr
      ⟨.ofList before, .ofList (piece ++ after), ?_, ?_⟩
    · rw [hsource, ← String.ofList_append, List.append_assoc]
    · rw [String.rawEndPos, String.utf8ByteSize_ofList]
  · refine String.Pos.Raw.isValid_iff_exists_append.mpr
      ⟨.ofList (before ++ piece), .ofList after, ?_, ?_⟩
    · rw [hsource, ← String.ofList_append]
    · rw [String.rawEndPos, String.utf8ByteSize_ofList, String.utf8Len_append]
  · rw [hsource]
    exact String.extract_of_valid before piece after

/-- **Errors point into the source**, whatever beginning of a text is blamed if it begins no token.
However deep the error is nested in quoted texts, and whatever escapes these have, its span lies
inside the source; and if the source has no backslash, the span begins and ends at character
boundaries and the span of an unknown directive holds the name that is reported. -/
theorem span_of_parse_error (extent : Token.Extent) (source : String) (e : ParseError)
    (h : parseWith extent source = .error e) :
    e.span.start ≤ e.span.stop ∧ e.span.stop ≤ source.utf8ByteSize ∧
      ('\\' ∉ source.toList →
        String.Pos.Raw.IsValid source ⟨e.span.start⟩ ∧ String.Pos.Raw.IsValid source ⟨e.span.stop⟩ ∧
        ∀ name : String, e.message = s!"unknown directive '{name}'" →
          String.Pos.Raw.extract source ⟨e.span.start⟩ ⟨e.span.stop⟩ = name) := by
  have hinto : e.PointsInto 0 source.toList := blames_parseWithin _ _ _ _ _ e h
  refine ⟨hinto.start_le, ?_, fun hescape => ?_⟩
  · rw [← byteSize_toList, ← Nat.zero_add (byteSize _)]
    exact hinto.stop_le
  · obtain ⟨piece, hmarks, hname⟩ := hinto.pinpoints hescape
    obtain ⟨hstart, hstop, hextract⟩ := hmarks.extract_eq
    refine ⟨hstart, hstop, fun name hmessage => ?_⟩
    rw [hextract, hname name hmessage, String.ofList_toList]

/-- The name of an unknown directive in a nested template, behind characters of two bytes; a brace
two levels deep, whose offset is that of the resolved texts; and an integer that is too large, of
which the first digit is blamed. -/
theorem span_of_parse_error_nested :
    (let source := "é\x7bvariant:v,\"ok\",\"ü\x7bbad:1\x7d\"\x7d"
      let e : ParseError :=
        ⟨"unknown directive 'bad'", ⟨22, 25⟩, some s!"expected one of {directiveNames}"⟩
      parse source = .error e ∧ '\\' ∉ source.toList ∧
        String.Pos.Raw.extract source ⟨e.span.start⟩ ⟨e.span.stop⟩ = "bad") ∧
    (let source := "\x7bindent:\"\\t\x7bindent:\\\"\\\\t\\\\t\x7d\\\"\x7d\"\x7d"
      let e : ParseError :=
        ⟨"unmatched '\x7d'", ⟨21, 22⟩, some "write '\x7d\x7d' for a literal brace"⟩
      parse source = .error e ∧ e.span.stop ≤ source.utf8ByteSize) ∧
    (let extent : Token.Extent := ⟨List.take 1, List.take_prefix 1⟩
      let source := "ü\x7bitem:18446744073709551616\x7d"
      let e : ParseError := ⟨"unexpected '1' in directive", ⟨8, 9⟩, none⟩
      parseWith extent source = .error e ∧ String.Pos.Raw.IsValid source ⟨e.span.stop⟩) := by
  refine ⟨?_, ?_, ?_⟩
  · intro source e
    have hparse : parse source = .error e := error?_eq_some_iff.mp (by decide +kernel)
    have hescape : '\\' ∉ source.toList := by decide
    obtain ⟨-, -, hexact⟩ := span_of_parse_error .asRead source e hparse
    exact ⟨hparse, hescape, (hexact hescape).2.2 "bad" rfl⟩
  · intro source e
    have hparse : parse source = .error e := error?_eq_some_iff.mp (by decide +kernel)
    exact ⟨hparse, (span_of_parse_error .asRead source e hparse).2.1⟩
  · intro extent source e
    have hparse : parseWith extent source = .error e :=
      error?_eq_some_iff.mp (by decide +kernel)
    obtain ⟨-, -, hexact⟩ := span_of_parse_error extent source e hparse
    exact ⟨hparse, (hexact (by decide)).2.1⟩

end Template

end QueryPlanner
