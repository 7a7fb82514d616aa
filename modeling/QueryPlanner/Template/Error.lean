import QueryPlanner.Template.Span

/-!
# Errors in templates

Why a template cannot be read, where, and how to mend it; and why one cannot be rendered.

* `ParseError.formatted` — a report with the line of the source and a mark under the span.
* `RenderError.message` — the wording of rendering errors.
-/

namespace QueryPlanner

namespace Template

/-- Why a template cannot be read. -/
structure ParseError where
  message : String
  span : Span
  hint : Option String
  deriving DecidableEq, Inhabited

namespace ParseError

/-- An error without a hint. -/
def plain (message : String) (span : Span) : ParseError := ⟨message, span, none⟩

/-- The error with a hint, in place of any other. -/
def withHint (e : ParseError) (hint : String) : ParseError := { e with hint := some hint }

/-- A number, filled up with blanks on the left to a width of three. -/
def lineNumber (n : Nat) : String :=
  let digits := toString n
  "".pushn ' ' (3 - digits.length) ++ digits

/-- The mark under a span: a caret at its column, and tildes to its end or to the end of the line.
-/
def underline (column spanSize lineLength : Nat) : String :=
  "".pushn ' ' column ++ "^" ++ "".pushn '~' (min spanSize (lineLength - column + 1) - 1)

/-- The error with its place in the source. -/
def formatted (e : ParseError) (source : String) : String :=
  let p := Position.ofOffset source e.span.start
  let head := s!"error: {e.message}\n  --> line {p.line}:{p.column}\n"
  let excerpt :=
    match (splitLines source.toList)[p.line - 1]? with
    | some line =>
      "   |\n" ++ lineNumber p.line ++ "| " ++ String.ofList line ++ "\n   |"
        ++ underline p.column e.span.size line.length ++ "\n"
    | none => ""
  let hint :=
    match e.hint with
    | some hint => s!"   = hint: {hint}\n"
    | none => ""
  head ++ excerpt ++ hint

end ParseError

/-- Why a template cannot be rendered. -/
inductive RenderError where
  | missingPlaceholder (id : String)
  | missingCycle (id : String)
  /-- A qualified name needs both mappings. -/
  | missingMappings (id : String)
  | itemOutOfRange (index width : Nat)
  | itemOutsideCycle (index : Nat)
  deriving DecidableEq, Inhabited

/-- The text an error is reported with. -/
def RenderError.message : RenderError → String
  | .missingPlaceholder id => s!"no value configured for placeholder '{id}'"
  | .missingCycle id => s!"no values configured for cycle '{id}'"
  | .missingMappings id =>
    s!"schema-qualified placeholder '{id}' requires both database and schema mappings"
  | .itemOutOfRange index width =>
    s!"cycle item {index} is out of range for a row of width {width}"
  | .itemOutsideCycle index => s!"cycle item {index} rendered outside of a cycle"

end Template

end QueryPlanner
