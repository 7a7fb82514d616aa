import QueryPlanner.Template.Directive

/-!
# Reading templates

Literal text with directives in braces; a doubled brace is a literal one.

* `closing?` — the content of a directive and what follows it.
* `parseWith`, `parse` — the nodes of a template; errors at tokens blame some beginning of the text.
* `escape` — a text that is read as itself.
-/

namespace QueryPlanner

namespace Template

/-- Splits a text at the brace that closes a directive, leaving the brace out. Braces in quoted
texts do not count: `inText` tells whether the text starts inside one, and `isEscaped` whether its
first character is protected there. -/
def closing? : Bool → Bool → List Char → Option (List Char × List Char)
  | _, _, [] => none
  | inText, true, c :: cs => (closing? inText false cs).map fun r => (c :: r.1, r.2)
  | inText, false, c :: cs =>
    if c = '}' && !inText then some ([], cs)
    else
      let step :=
        if c = '\\' && inText then closing? inText true cs
        else if c = '"' then closing? (!inText) false cs
        else closing? inText false cs
      step.map fun r => (c :: r.1, r.2)

/-- A directive is followed by a shorter text. -/
theorem length_closing_lt {inText isEscaped : Bool} {cs content rest : List Char}
    (h : closing? inText isEscaped cs = some (content, rest)) : rest.length < cs.length := by
  induction cs generalizing inText isEscaped content with
  | nil => simp [closing?] at h
  | cons c cs ih =>
    -- All characters but the closing brace are passed on to the rest of the search.
    have step {a b : Bool} {content : List Char}
        (h : (closing? a b cs).map (fun r => (c :: r.1, r.2)) = some (content, rest)) :
        rest.length < (c :: cs).length := by
      obtain ⟨r, hr, hc⟩ := Option.map_eq_some_iff.1 h
      have hrest : r.2 = rest := by simpa using congrArg Prod.snd hc
      have := ih (show closing? a b cs = some (r.1, rest) by rw [hr, ← hrest])
      simp only [List.length_cons]
      omega
    cases isEscaped with
    | true => exact step (by simpa [closing?] using h)
    | false =>
      simp only [closing?] at h
      split at h
      · have : cs = rest := by simpa using congrArg (Option.map Prod.snd) h
        simp [← this]
      · split at h
        · exact step h
        · split at h <;> exact step h

/-- The node of literal text, if there is any; characters are given last first. -/
def literalNodes (reversed : List Char) : List Node :=
  if reversed.isEmpty then [] else [.text (String.ofList reversed.reverse)]

/-- Reads the rest of a template, whose first byte has the offset `base`. The literal characters
before it are given last first. -/
def parseRest (extent : Token.Extent) (nested : Nested) (inCycle : Bool) (base : Nat)
    (literal cs : List Char) : Except ParseError (List Node) :=
  match cs with
  | [] => .ok (literalNodes literal)
  | '{' :: '{' :: rest => parseRest extent nested inCycle (base + 2) ('{' :: literal) rest
  | '}' :: '}' :: rest => parseRest extent nested inCycle (base + 2) ('}' :: literal) rest
  | '}' :: _ =>
    .error ((ParseError.plain "unmatched '\x7d'" ⟨base, base + 1⟩).withHint
      "write '\x7d\x7d' for a literal brace")
  | '{' :: rest =>
    match _h : closing? false false rest with
    | none => .error (.plain "unterminated directive" ⟨base, base + 1 + byteSize rest⟩)
    | some (content, after) => do
      let stop := base + 2 + byteSize content
      let node ← Directive.parse extent nested ⟨base, stop⟩ inCycle content
      let nodes ← parseRest extent nested inCycle stop [] after
      return literalNodes literal ++ node :: nodes
  | c :: rest => parseRest extent nested inCycle (base + c.utf8Size) (c :: literal) rest
termination_by cs.length
decreasing_by
  all_goals simp only [List.length_cons]
  · omega
  · omega
  · have := length_closing_lt _h
    omega
  · omega

/-- Reads a template in which templates are nested at most so deep. -/
def parseWithin (extent : Token.Extent) : Nat → Nested
  | 0 => fun _ _ _ => .ok []
  | depth + 1 => fun base inCycle cs =>
    parseRest extent (parseWithin extent depth) inCycle base [] cs

/-- Reads a template. A nested template is shorter than the one around it, so the size of the source
bounds how deep templates can be nested. -/
def parseWith (extent : Token.Extent) (source : String) : Except ParseError (List Node) :=
  parseWithin extent source.length 0 false source.toList

/-- Reads a template; an error at a token blames all that was read. -/
def parse (source : String) : Except ParseError (List Node) := parseWith .asRead source

/-- The text that is read as literal text. -/
def escape (text : String) : String :=
  String.ofList (text.toList.flatMap fun c => if c = '{' || c = '}' then [c, c] else [c])

end Template

end QueryPlanner
