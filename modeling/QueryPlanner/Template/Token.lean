import QueryPlanner.Template.Error

/-!
# Tokens of directives

The text between the braces of a directive is a sequence of tokens with blanks between them. Reading
stops at the first character that begins no token.

* `Token` — the tokens.
* `Token.read` — the first token of a text.
* `Token.Extent` — how much of a text is blamed if it begins no token.
* `Token.lex` — all tokens, up to the end or the first error.
-/

namespace QueryPlanner

namespace Template

/-- The tokens between the braces of a directive. -/
inductive Token where
  | ident (name : String)
  /-- A quoted text, without its quotes and with its escapes resolved. -/
  | text (text : String)
  | integer (value : Nat)
  | colon
  | comma
  | dot
  deriving DecidableEq, Inhabited

namespace Token

/-- What a token is called in messages. -/
def describe : Token → String
  | .ident name => s!"identifier '{name}'"
  | .text _ => "string"
  | .integer value => s!"integer {value}"
  | .colon => "':'"
  | .comma => "','"
  | .dot => "'.'"

/-- Whether a character separates tokens. -/
def isBlank (c : Char) : Bool := c == ' ' || c == '\t' || c == '\r' || c == '\n'

/-- Whether an identifier can begin with a character. -/
def isIdentStart (c : Char) : Bool := c.isAlpha || c == '_'

/-- Whether a character can follow in an identifier. -/
def isIdentPart (c : Char) : Bool := c.isAlphanum || c == '_'

/-! ### Quoted texts -/

/-- The content of a quoted text up to the closing quote, and what follows the quote. A backslash
protects the next character, which must not be a line feed. Without a closing quote it is the
content as far as it can be read. -/
def readQuoted : List Char → List Char × Option (List Char)
  | [] => ([], none)
  | '"' :: cs => ([], some cs)
  | ['\\'] => ([], none)
  | '\\' :: c :: cs =>
    if c = '\n' then ([], none)
    else ('\\' :: c :: (readQuoted cs).1, (readQuoted cs).2)
  | c :: cs => (c :: (readQuoted cs).1, (readQuoted cs).2)

/-- Resolves the escapes of a quoted text. A backslash before any other character stays. -/
def unescape : List Char → List Char
  | [] => []
  | '\\' :: 'n' :: cs => '\n' :: unescape cs
  | '\\' :: 't' :: cs => '\t' :: unescape cs
  | '\\' :: 'r' :: cs => '\r' :: unescape cs
  | '\\' :: '\\' :: cs => '\\' :: unescape cs
  | '\\' :: '"' :: cs => '"' :: unescape cs
  | c :: cs => c :: unescape cs

/-! ### Single tokens -/

/-- The value of decimal digits. -/
def digitsValue (digits : List Char) : Nat :=
  digits.foldl (fun n c => n * 10 + (c.toNat - '0'.toNat)) 0

/-- The largest integer a token can hold. -/
def maxInteger : Nat := UInt64.size - 1

/-- The beginning of a text read as a token. -/
structure Reading where
  /-- The token, if the characters form one. -/
  token : Option Token
  /-- The characters read. -/
  lexeme : List Char
  rest : List Char
  deriving Inhabited

/-- Reads the first token of the text `c :: cs`. -/
def read (c : Char) (cs : List Char) : Reading :=
  if c = ':' then ⟨some .colon, [c], cs⟩
  else if c = ',' then ⟨some .comma, [c], cs⟩
  else if c = '.' then ⟨some .dot, [c], cs⟩
  else if c = '"' then
    match readQuoted cs with
    | (content, some rest) =>
      ⟨some (.text (String.ofList (unescape content))), '"' :: content ++ ['"'], rest⟩
    | (content, none) => ⟨none, '"' :: content, []⟩
  else if isIdentStart c then
    let name := c :: cs.takeWhile isIdentPart
    ⟨some (.ident (String.ofList name)), name, cs.dropWhile isIdentPart⟩
  else if c.isDigit then
    let digits := c :: cs.takeWhile Char.isDigit
    let value := digitsValue digits
    ⟨if value ≤ maxInteger then some (.integer value) else none, digits, cs.dropWhile Char.isDigit⟩
  else ⟨none, [c], cs⟩

theorem length_readQuoted_lt {cs rest : List Char} (h : (readQuoted cs).2 = some rest) :
    rest.length < cs.length := by
  fun_induction readQuoted cs with
  | case1 => simp at h
  | case2 cs =>
    simp only [Option.some.injEq] at h
    simp [← h]
  | case3 => simp at h
  | case4 => simp at h
  | case5 c cs _ ih =>
    have := ih h
    simp only [List.length_cons]
    omega
  | case6 c cs _ _ _ ih =>
    have := ih h
    simp only [List.length_cons]
    omega

/-- Reading a token uses up at least its first character. -/
theorem length_read_rest_le (c : Char) (cs : List Char) : (read c cs).rest.length ≤ cs.length := by
  unfold read
  split
  · exact Nat.le_refl _
  split
  · exact Nat.le_refl _
  split
  · exact Nat.le_refl _
  split
  · split
    · next content rest h => exact Nat.le_of_lt (length_readQuoted_lt (by rw [h]))
    · exact Nat.zero_le _
  split
  · exact (List.dropWhile_suffix _).length_le
  split
  · exact (List.dropWhile_suffix _).length_le
  · exact Nat.le_refl _

/-- A quoted text is its content, the closing quote, and what follows. -/
theorem eq_of_readQuoted {cs rest : List Char} (h : (readQuoted cs).2 = some rest) :
    cs = (readQuoted cs).1 ++ '"' :: rest := by
  fun_induction readQuoted cs with
  | case1 => cases h
  | case2 cs => simpa using h
  | case3 => cases h
  | case4 => cases h
  | case5 c cs hc ih => simpa using ih h
  | case6 c cs hnil hquote hslash ih => simpa using ih h

/-- A quoted text that is not closed begins with the characters that were read. -/
theorem readQuoted_isPrefix (cs : List Char) : (readQuoted cs).1 <+: cs := by
  fun_induction readQuoted cs with
  | case1 => exact List.nil_prefix
  | case2 => exact List.nil_prefix
  | case3 => exact List.nil_prefix
  | case4 => exact List.nil_prefix
  | case5 c cs _ ih => simpa using ih
  | case6 c cs _ _ _ ih => simpa using ih

/-- What is read stands at the beginning of the text, also where it is no token. -/
theorem lexeme_isPrefix (c : Char) (cs : List Char) : (read c cs).lexeme <+: c :: cs := by
  unfold read
  split
  · simp
  split
  · simp
  split
  · simp
  split
  · next hc =>
    subst hc
    split
    · next content rest h =>
      have heq := eq_of_readQuoted (show (readQuoted cs).2 = some rest by rw [h])
      rw [h] at heq
      rw [heq]
      simp
    · next content h =>
      have := readQuoted_isPrefix cs
      rw [h] at this
      simpa using this
  split
  · simpa using List.takeWhile_prefix _
  split
  · simpa using List.takeWhile_prefix _
  · simp

/-! ### Texts that begin no token -/

/-- How much of a text is blamed if it begins no token: some beginning of it. -/
structure Extent where
  /-- The characters that are blamed. -/
  blamed : List Char → List Char
  isPrefix : ∀ cs, blamed cs <+: cs

/-- All characters are blamed that could still be read as part of a token: an open quotation, the
digits of an integer that is too large, and any other character by itself. -/
def Extent.asRead : Extent where
  blamed
    | [] => []
    | c :: cs => (read c cs).lexeme
  isPrefix
    | [] => List.nil_prefix
    | c :: cs => lexeme_isPrefix c cs

/-! ### Sequences of tokens -/

/-- The tokens of a text whose first byte has the offset `base`, and the error that ends them, if
one does. -/
def lex (extent : Extent) (base : Nat) (cs : List Char) :
    List (Located Token) × Option ParseError :=
  match _h : cs.dropWhile isBlank with
  | [] => ([], none)
  | c :: rest =>
    let start := base + byteSize (cs.takeWhile isBlank)
    let reading := read c rest
    match reading.token with
    | none =>
      let blamed := extent.blamed (c :: rest)
      ([], some (.plain s!"unexpected '{String.ofList blamed}' in directive"
        ⟨start, start + byteSize blamed⟩))
    | some token =>
      let span : Span := ⟨start, start + byteSize reading.lexeme⟩
      let (tokens, failure) := lex extent span.stop (read c rest).rest
      (⟨token, span⟩ :: tokens, failure)
termination_by cs.length
decreasing_by
  have h₁ := length_read_rest_le c rest
  have h₂ := (List.dropWhile_suffix (l := cs) isBlank).length_le
  rw [_h, List.length_cons] at h₂
  omega

/-- All tokens of a text, or its first error. -/
def tokenize (source : String) : Except ParseError (List (Located Token)) :=
  match lex .asRead 0 source.toList with
  | (tokens, none) => .ok tokens
  | (_, some failure) => .error failure

end Token

end Template

end QueryPlanner
