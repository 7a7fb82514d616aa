import Mathlib.Data.List.TakeWhile
import QueryPlanner.Template.Parser

/-!
# Tokens and where directives end

The text of a directive is looked at twice.  First the closing brace is searched for, with braces in
quoted texts passed over; then the content is read as tokens.  Both know where a quoted text ends,
and they agree: a content that can be read as tokens is passed over as a whole.  Tokens that are
written down one after another are read back, unless two words stand side by side.

## Main definitions

* `escapeQuoted` — a text as it stands between quotes.
* `Passes` — the search for the closing brace passes over some characters.
* `Token.written`, `Token.isSpelled` — a token as text, and tokens that have one.
* `Token.areApart` — no two words stand side by side.

## Main results

* `closing?_of_lex` — **the search for the brace and the reader of tokens agree**.
* `Token.lex_written` — **written tokens are read back**.
-/

namespace QueryPlanner

namespace Template

/-! ### Quoted texts -/

/-- A text as it stands between quotes: a backslash before each backslash and each quote. -/
def escapeQuoted : List Char → List Char
  | [] => []
  | c :: cs => if c = '\\' ∨ c = '"' then '\\' :: c :: escapeQuoted cs else c :: escapeQuoted cs

theorem length_le_length_escapeQuoted (cs : List Char) : cs.length ≤ (escapeQuoted cs).length := by
  induction cs with
  | nil => exact Nat.le_refl _
  | cons c cs ih =>
    rw [escapeQuoted]
    split <;> simp only [List.length_cons] <;> omega

namespace Token

theorem readQuoted_escapeQuoted (cs rest : List Char) :
    readQuoted (escapeQuoted cs ++ '"' :: rest) = (escapeQuoted cs, some rest) := by
  induction cs with
  | nil => rfl
  | cons c cs ih =>
    by_cases hslash : c = '\\'
    · subst hslash
      simp [escapeQuoted, readQuoted, ih]
    by_cases hquote : c = '"'
    · subst hquote
      simp [escapeQuoted, readQuoted, ih]
    simp [escapeQuoted, hslash, hquote, readQuoted, ih]

theorem unescape_escapeQuoted (cs : List Char) : unescape (escapeQuoted cs) = cs := by
  induction cs with
  | nil => rfl
  | cons c cs ih =>
    by_cases hslash : c = '\\'
    · subst hslash
      simp [escapeQuoted, unescape, ih]
    by_cases hquote : c = '"'
    · subst hquote
      simp [escapeQuoted, unescape, ih]
    simp [escapeQuoted, hslash, hquote, unescape, ih]

end Token

/-! ### Searching for the closing brace -/

/-- The search for the closing brace passes over some characters, whatever follows them. -/
def Passes (xs : List Char) : Prop :=
  ∀ ys, closing? false false (xs ++ ys) = (closing? false false ys).map fun r => (xs ++ r.1, r.2)

theorem passes_nil : Passes [] := by
  intro ys
  simp

theorem Passes.append {xs ys : List Char} (hxs : Passes xs) (hys : Passes ys) :
    Passes (xs ++ ys) := by
  intro zs
  rw [List.append_assoc, hxs, hys, Option.map_map]
  simp [Function.comp_def]

theorem passes_of_plain {xs : List Char} (h : ∀ c ∈ xs, c ≠ '}' ∧ c ≠ '"') : Passes xs := by
  induction xs with
  | nil => exact passes_nil
  | cons c cs ih =>
    intro ys
    obtain ⟨hbrace, hquote⟩ := h c (by simp)
    have hcs := ih (fun d hd => h d (by simp [hd])) ys
    simp [closing?, hbrace, hquote, hcs, Function.comp_def]

/-- Inside a quoted text the search goes on after the closing quote. -/
theorem closing?_of_readQuoted {cs rest : List Char} (h : (Token.readQuoted cs).2 = some rest)
    (ys : List Char) : closing? true false (cs ++ ys) =
      (closing? false false (rest ++ ys)).map fun r =>
        ((Token.readQuoted cs).1 ++ '"' :: r.1, r.2) := by
  fun_induction Token.readQuoted cs with
  | case1 => cases h
  | case2 cs =>
    obtain rfl := Option.some.inj h
    simp [closing?]
  | case3 => cases h
  | case4 => cases h
  | case5 c cs hc ih =>
    simp [closing?, ih h, Function.comp_def]
  | case6 c cs hquote hlast hslash ih =>
    -- A backslash with a character after it was dealt with before, and one at the end cannot be
    -- read.
    have hne : c ≠ '\\' := by
      intro hc
      cases cs with
      | nil => exact hlast hc rfl
      | cons d ds => exact hslash d ds hc rfl
    simp [closing?, hne, show c ≠ '"' from hquote, ih h, Function.comp_def]

namespace Token

/-- A token and what follows it make up the text. -/
theorem lexeme_append_rest {c : Char} {cs : List Char} (h : (read c cs).token.isSome) :
    (read c cs).lexeme ++ (read c cs).rest = c :: cs := by
  unfold read at h ⊢
  split
  · rfl
  split
  · rfl
  split
  · rfl
  split
  · next hc =>
    -- A quoted text is all up to its closing quote.
    cases hq : readQuoted cs with
    | mk content following =>
      cases following with
      | none => simp [hq, hc] at h
      | some rest =>
        have heq := eq_of_readQuoted (show (readQuoted cs).2 = some rest by rw [hq])
        simp only [hq] at heq
        simp [heq, hc]
  split
  · simp
  split
  · simp
  · rfl

theorem isIdentPart_of_isIdentStart {c : Char} (h : isIdentStart c) : isIdentPart c := by
  simp only [isIdentStart, isIdentPart, Char.isAlphanum, Bool.or_eq_true] at h ⊢
  exact h.imp_left Or.inl

theorem isIdentPart_of_isDigit {c : Char} (h : c.isDigit) : isIdentPart c := by
  simp [isIdentPart, Char.isAlphanum, h]

/-- The characters of words are no others. -/
theorem ne_of_isIdentPart {c d : Char} (hc : isIdentPart c) (hd : isIdentPart d = false) :
    c ≠ d := by
  rintro rfl
  rw [hc] at hd
  cases hd

theorem ne_of_isBlank {c d : Char} (hc : isBlank c) (hd : isBlank d = false) : c ≠ d := by
  rintro rfl
  rw [hc] at hd
  cases hd

theorem passes_blanks {cs : List Char} (h : ∀ c ∈ cs, isBlank c) : Passes cs :=
  passes_of_plain fun c hc =>
    ⟨ne_of_isBlank (h c hc) (by decide), ne_of_isBlank (h c hc) (by decide)⟩

theorem passes_word {c : Char} {p : Char → Bool} (hc : isIdentPart c)
    (hp : ∀ d, p d → isIdentPart d) (cs : List Char) : Passes (c :: cs.takeWhile p) := by
  refine passes_of_plain fun d hd => ?_
  have hpart : isIdentPart d := by
    rcases List.mem_cons.mp hd with rfl | hd
    · exact hc
    · exact hp d (List.mem_takeWhile_imp hd)
  exact ⟨ne_of_isIdentPart hpart (by decide), ne_of_isIdentPart hpart (by decide)⟩

/-- The search for the brace passes over a token that is no quoted text. -/
theorem passes_lexeme {c : Char} {cs : List Char} (h : (read c cs).token.isSome)
    (hquote : c ≠ '"') : Passes (read c cs).lexeme := by
  -- Punctuation is neither a brace nor a quote.
  have hsingle : c ≠ '}' → Passes [c] := by
    intro hbrace
    refine passes_of_plain fun d hd => ?_
    rw [List.mem_singleton.mp hd]
    exact ⟨hbrace, hquote⟩
  unfold read at h ⊢
  split
  · next hc => exact hsingle (by simp [hc])
  split
  · next hc => exact hsingle (by simp [hc])
  split
  · next hc => exact hsingle (by simp [hc])
  split
  · next hstart =>
    exact passes_word (isIdentPart_of_isIdentStart hstart) (fun _ hd => hd) cs
  split
  · next hdigit =>
    exact passes_word (isIdentPart_of_isDigit hdigit) (fun _ hd => isIdentPart_of_isDigit hd) cs
  · simp_all

/-- The search for the brace passes over a token. -/
theorem closing?_read {c : Char} {cs : List Char} (h : (read c cs).token.isSome) (ys : List Char) :
    closing? false false (c :: cs ++ ys) =
      (closing? false false ((read c cs).rest ++ ys)).map fun r =>
        ((read c cs).lexeme ++ r.1, r.2) := by
  by_cases hquote : c = '"'
  · subst hquote
    cases hq : readQuoted cs with
    | mk content following =>
      cases following with
      | none => simp [read, hq] at h
      | some rest =>
        have hsearch := closing?_of_readQuoted (show (readQuoted cs).2 = some rest by rw [hq]) ys
        simp only [hq] at hsearch
        simp [read, hq, closing?, hsearch, Function.comp_def]
  · rw [← lexeme_append_rest h, List.append_assoc, passes_lexeme h hquote]

/-- **The search for the brace and the reader of tokens agree**: it passes over all that can be
read. -/
theorem passes_of_lex {extent : Extent} {base : Nat} {cs : List Char}
    (h : (lex extent base cs).2 = none) : Passes cs := by
  fun_induction lex extent base cs with
  | case1 base cs hblank => exact passes_blanks (List.dropWhile_eq_nil_iff.mp hblank)
  | case2 => cases h
  | case3 base cs c rest hcs start reading token htoken span tokens failure hlex ih =>
    have hread : Passes (c :: rest) := by
      intro ys
      have htail : Passes (read c rest).rest := ih (by rw [hlex]; exact h)
      have hsome : (read c rest).token.isSome := by
        rw [show (read c rest).token = some token from htoken]
        rfl
      rw [closing?_read hsome, htail, Option.map_map, ← lexeme_append_rest hsome]
      simp [Function.comp_def]
    have hblank : Passes (cs.takeWhile isBlank) := passes_blanks fun _ => List.mem_takeWhile_imp
    rw [← List.takeWhile_append_dropWhile (p := isBlank) (l := cs), hcs]
    exact hblank.append hread

end Token

/-- A content that can be read as tokens ends at the brace after it. -/
theorem closing?_of_lex {extent : Token.Extent} {base : Nat} {cs : List Char}
    (h : (Token.lex extent base cs).2 = none) (following : List Char) :
    closing? false false (cs ++ '}' :: following) = some (cs, following) := by
  rw [Token.passes_of_lex h]
  simp [closing?]

namespace Token

/-! ### Writing tokens -/

/-- Whether a text is a letter or an underscore, followed by such and by digits. -/
def isIdentifier (name : String) : Bool :=
  match name.toList with
  | [] => false
  | c :: cs => isIdentStart c && cs.all isIdentPart

/-- A token as text. -/
def written : Token → List Char
  | .ident name => name.toList
  | .text content => '"' :: escapeQuoted content.toList ++ ['"']
  | .integer value => Nat.toDigits 10 value
  | .colon => [':']
  | .comma => [',']
  | .dot => ['.']

/-- Whether a token can be written: identifiers are such, and integers are not too large. -/
def isSpelled : Token → Bool
  | .ident name => isIdentifier name
  | .integer value => value ≤ maxInteger
  | _ => true

/-- Whether a token is a word, which ends where something else begins. -/
def isWord : Token → Bool
  | .ident _ => true
  | .integer _ => true
  | _ => false

/-- Whether no two words stand side by side. -/
def areApart : List Token → Bool
  | t :: u :: ts => !(t.isWord && u.isWord) && areApart (u :: ts)
  | _ => true

theorem takeWhile_append_of_all {p : Char → Bool} {xs ys : List Char} (hxs : xs.all p)
    (hys : ∀ c ∈ ys.head?, p c = false) :
    (xs ++ ys).takeWhile p = xs ∧ (xs ++ ys).dropWhile p = ys := by
  have hall : ∀ c ∈ xs, p c := List.all_eq_true.mp hxs
  have hstop : ys.takeWhile p = [] ∧ ys.dropWhile p = ys := by
    cases ys with
    | nil => exact ⟨rfl, rfl⟩
    | cons c cs => simp [hys c rfl]
  rw [List.takeWhile_append_of_pos hall, List.dropWhile_append_of_pos hall, hstop.1, hstop.2]
  exact ⟨List.append_nil xs, rfl⟩

theorem digitsValue_toDigits (n : Nat) : digitsValue (Nat.toDigits 10 n) = n := by
  have h := Nat.ofDigitChars_ten_toDigits (n := n)
  rw [Nat.ofDigitChars_eq_foldl] at h
  simpa only [digitsValue, Nat.mul_comm] using h

theorem isBlank_of_isIdentPart {c : Char} (h : isIdentPart c) : isBlank c = false := by
  rw [Bool.eq_false_iff]
  intro hblank
  simp only [isBlank, Bool.or_eq_true, beq_iff_eq] at hblank
  rcases hblank with ((rfl | rfl) | rfl) | rfl <;> exact absurd h (by decide)

theorem isIdentStart_of_isDigit {c : Char} (h : c.isDigit) : isIdentStart c = false := by
  have hunderscore : c ≠ '_' := by
    rintro rfl
    exact absurd h (by decide)
  have hdigit : c.toNat ≤ 57 := (Char.isDigit_iff_toNat.mp h).2
  have hletter : c.isAlpha = false := by
    refine Bool.eq_false_iff.mpr fun hletter => ?_
    -- Both cases of letters come after the digits.
    rcases (Bool.or_eq_true _ _).mp hletter with hupper | hlower
    · have hlow : 65 ≤ c.toNat := UInt32.le_iff_toNat_le.mp (of_decide_eq_true hupper).1
      omega
    · have hlow : 97 ≤ c.toNat :=
        UInt32.le_iff_toNat_le.mp (of_decide_eq_true ((Bool.and_eq_true _ _).mp hlower).1)
      omega
  simp [isIdentStart, hletter, hunderscore]

/-- A word is read in one of the last two ways. -/
theorem read_of_isIdentPart {c : Char} (h : isIdentPart c) (cs : List Char) :
    read c cs =
      if isIdentStart c then
        ⟨some (.ident (String.ofList (c :: cs.takeWhile isIdentPart))),
          c :: cs.takeWhile isIdentPart, cs.dropWhile isIdentPart⟩
      else if c.isDigit then
        ⟨if digitsValue (c :: cs.takeWhile Char.isDigit) ≤ maxInteger
          then some (.integer (digitsValue (c :: cs.takeWhile Char.isDigit))) else none,
          c :: cs.takeWhile Char.isDigit, cs.dropWhile Char.isDigit⟩
      else ⟨none, [c], cs⟩ := by
  rw [read, if_neg (ne_of_isIdentPart h (by decide)), if_neg (ne_of_isIdentPart h (by decide)),
    if_neg (ne_of_isIdentPart h (by decide)), if_neg (ne_of_isIdentPart h (by decide))]

theorem read_ident {name : String} (h : isIdentifier name) {rest : List Char}
    (hrest : ∀ c ∈ rest.head?, isIdentPart c = false) :
    ∃ c cs, name.toList ++ rest = c :: cs ∧ isBlank c = false ∧
      read c cs = ⟨some (.ident name), name.toList, rest⟩ := by
  unfold isIdentifier at h
  split at h
  · cases h
  · next c cs hname =>
    obtain ⟨hstart, hall⟩ := Bool.and_eq_true_iff.mp h
    have hpart := isIdentPart_of_isIdentStart hstart
    obtain ⟨htake, hdrop⟩ := takeWhile_append_of_all hall hrest
    refine ⟨c, cs ++ rest, by rw [hname, List.cons_append], isBlank_of_isIdentPart hpart, ?_⟩
    rw [read_of_isIdentPart hpart, if_pos hstart, htake, hdrop, ← hname, String.ofList_toList]

theorem read_integer {value : Nat} (h : value ≤ maxInteger) {rest : List Char}
    (hrest : ∀ c ∈ rest.head?, isIdentPart c = false) :
    ∃ c cs, Nat.toDigits 10 value ++ rest = c :: cs ∧ isBlank c = false ∧
      read c cs = ⟨some (.integer value), Nat.toDigits 10 value, rest⟩ := by
  obtain ⟨c, cs, hdigits⟩ := List.exists_cons_of_ne_nil (Nat.toDigits_ne_nil (n := value) (b := 10))
  have hall : ∀ d ∈ c :: cs, d.isDigit := by
    intro d hd
    rw [← hdigits] at hd
    exact Nat.isDigit_of_mem_toDigits (by decide) (by decide) hd
  -- What follows a number does not continue it.
  have hstop : ∀ d ∈ rest.head?, d.isDigit = false := by
    intro d hd
    rw [Bool.eq_false_iff]
    intro hdigit
    exact ne_of_isIdentPart (isIdentPart_of_isDigit hdigit) (hrest d hd) rfl
  have hc := hall c (by simp)
  have hpart := isIdentPart_of_isDigit hc
  have hcs : cs.all Char.isDigit := List.all_eq_true.mpr fun d hd => hall d (by simp [hd])
  obtain ⟨htake, hdrop⟩ := takeWhile_append_of_all hcs hstop
  have hvalue : digitsValue (c :: cs) = value := by rw [← hdigits, digitsValue_toDigits]
  -- The number is read back from its digits, and is small enough by assumption.
  refine ⟨c, cs ++ rest, by rw [hdigits, List.cons_append], isBlank_of_isIdentPart hpart, ?_⟩
  rw [read_of_isIdentPart hpart, if_neg (by simp [isIdentStart_of_isDigit hc]), if_pos hc, htake,
    hdrop, hvalue, if_pos h, hdigits]

/-- A written token is read back, if no word is continued by what follows. -/
theorem read_written {t : Token} (h : t.isSpelled) {rest : List Char}
    (hrest : t.isWord → ∀ c ∈ rest.head?, isIdentPart c = false) :
    ∃ c cs, t.written ++ rest = c :: cs ∧ isBlank c = false ∧
      read c cs = ⟨some t, t.written, rest⟩ := by
  cases t with
  | ident name => exact read_ident h (hrest rfl)
  | integer value => exact read_integer (of_decide_eq_true h) (hrest rfl)
  | text content =>
    refine ⟨'"', escapeQuoted content.toList ++ '"' :: rest, by simp [written], rfl, ?_⟩
    simp [read, readQuoted_escapeQuoted, unescape_escapeQuoted, written]
  | colon => exact ⟨':', rest, rfl, rfl, rfl⟩
  | comma => exact ⟨',', rest, rfl, rfl, rfl⟩
  | dot => exact ⟨'.', rest, rfl, rfl, rfl⟩

/-- A token read at the beginning of a text is the first of its tokens. -/
theorem lex_of_read {c : Char} {cs lexeme rest : List Char} {t : Token} (hblank : isBlank c = false)
    (h : read c cs = ⟨some t, lexeme, rest⟩) (extent : Extent) (base : Nat) :
    lex extent base (c :: cs) =
      (⟨t, ⟨base, base + byteSize lexeme⟩⟩ :: (lex extent (base + byteSize lexeme) rest).1,
        (lex extent (base + byteSize lexeme) rest).2) := by
  have hdrop : (c :: cs).dropWhile isBlank = c :: cs := by simp [hblank]
  have htake : (c :: cs).takeWhile isBlank = [] := by simp [hblank]
  rw [lex]
  split
  · next hnil =>
    rw [hdrop] at hnil
    cases hnil
  · next d ds hcons =>
    rw [hdrop] at hcons
    obtain ⟨rfl, rfl⟩ := List.cons.inj hcons
    simp only [h, htake, byteSize, Nat.add_zero]

/-- What follows a word among tokens that stand apart does not continue it. -/
theorem isIdentPart_head_written {t : Token} {ts : List Token} (h : areApart (t :: ts))
    (hword : t.isWord) : ∀ c ∈ (ts.flatMap written).head?, isIdentPart c = false := by
  intro c hc
  cases ts with
  | nil => cases hc
  | cons u us =>
    simp only [areApart, hword, Bool.true_and, Bool.and_eq_true, Bool.not_eq_true'] at h
    have hother : u.isWord = false := h.1
    cases u with
    | ident name => cases hother
    | integer value => cases hother
    | _ =>
      obtain rfl := Option.some.inj hc
      decide

theorem areApart_tail {t : Token} {ts : List Token} (h : areApart (t :: ts)) : areApart ts := by
  cases ts with
  | nil => rfl
  | cons u us =>
    simp only [areApart, Bool.and_eq_true] at h
    exact h.2

/-- **Written tokens are read back.** -/
theorem lex_written {ts : List Token} (hspelled : ts.all isSpelled) (hapart : areApart ts)
    (extent : Extent) (base : Nat) :
    (lex extent base (ts.flatMap written)).1.map Located.value = ts ∧
      (lex extent base (ts.flatMap written)).2 = none := by
  induction ts generalizing base with
  | nil => simp [lex]
  | cons t ts ih =>
    obtain ⟨ht, hts⟩ := Bool.and_eq_true_iff.mp hspelled
    obtain ⟨c, cs, htext, hblank, hread⟩ := read_written ht (isIdentPart_head_written hapart)
    obtain ⟨htokens, hfailure⟩ := ih hts (areApart_tail hapart) (base + byteSize t.written)
    rw [List.flatMap_cons, htext, lex_of_read hblank hread]
    exact ⟨by rw [List.map_cons, htokens], hfailure⟩

end Token

end Template

end QueryPlanner
