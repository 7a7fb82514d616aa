import QueryPlanner.Template.Node
import QueryPlanner.Template.Token

/-!
# Directives

A directive is read from the tokens between its braces. A single identifier is a placeholder; every
other directive has a name, a colon and arguments:

* `schema` — a qualified name, with the quote to use;
* `variant` — an id and two templates;
* `cycle` — an id, a template, a delimiter, and a template for the empty case;
* `item` — a number, allowed inside a cycle only;
* `indent` — a template;
* `delimiter`, `row_delimiter` — a text.

Templates in arguments are quoted texts. They are read by a function that the reader of directives
is given, so that it needs no recursion of its own.
-/

namespace QueryPlanner

namespace Template

/-- The tokens still to be read. -/
structure TokenStream where
  tokens : List (Located Token)
  /-- The error that ends the tokens, if they do not end with the text. -/
  failure : Option ParseError
  /-- The offset of the end of the text. -/
  stop : Nat
  deriving Inhabited

/-- The tokens of a text whose first byte has the offset `base`. -/
def TokenStream.ofText (extent : Token.Extent) (base : Nat) (cs : List Char) : TokenStream :=
  let (tokens, failure) := Token.lex extent base cs
  ⟨tokens, failure, base + byteSize cs⟩

/-- Reads tokens, or fails. -/
abbrev TokenReader := StateT TokenStream (Except ParseError)

namespace TokenReader

/-- The next token, which stays; none at the end and before an error. -/
def peek? : TokenReader (Option Token) := fun s => .ok (s.tokens.head?.map Located.value, s)

/-- Takes the next token. -/
def next : TokenReader (Located Token) := fun s =>
  match s.tokens, s.failure with
  | token :: tokens, _ => .ok (token, { s with tokens := tokens })
  | [], some failure => .error failure
  | [], none => .error (.plain "unexpected end of directive" ⟨s.stop, s.stop⟩)

/-- Takes nothing, and fails if there is anything left. -/
def finish : TokenReader Unit := fun s =>
  match s.tokens, s.failure with
  | token :: _, _ =>
    .error (.plain s!"unexpected {token.value.describe} at end of directive" token.span)
  | [], some failure => .error failure
  | [], none => .ok ((), s)

/-- The error for a token that is not the expected one. -/
def unexpected (expected : String) (found : Located Token) : ParseError :=
  .plain s!"expected {expected}, found {found.value.describe}" found.span

/-- Takes an identifier. -/
def ident : TokenReader (Located String) := do
  let token ← next
  match token.value with
  | .ident name => return ⟨name, token.span⟩
  | _ => throw (unexpected "identifier" token)

/-- Takes a quoted text. -/
def text : TokenReader (Located String) := do
  let token ← next
  match token.value with
  | .text text => return ⟨text, token.span⟩
  | _ => throw (unexpected "string" token)

/-- Takes an integer. -/
def integer : TokenReader Nat := do
  let token ← next
  match token.value with
  | .integer value => return value
  | _ => throw (unexpected "integer" token)

/-- Takes a colon. A point in its place suggests a qualified name, which the hint explains. -/
def colon : TokenReader Unit := do
  let token ← next
  match token.value with
  | .colon => return ()
  | .dot =>
    throw ((unexpected "':'" token).withHint
      "qualified names are written \x7bschema:db.schema.table\x7d")
  | _ => throw (unexpected "':'" token)

/-- Takes a comma. -/
def comma : TokenReader Unit := do
  let token ← next
  match token.value with
  | .comma => return ()
  | _ => throw (unexpected "','" token)

/-- Further parts of a name, each after a point, for as many tokens as there are. -/
def nameParts : Nat → TokenReader (List String)
  | 0 => return []
  | count + 1 => do
    if (← peek?) = some .dot then
      let _ ← next
      let part ← ident
      return part.value :: (← nameParts count)
    else return []

/-- The quote of a name, if one is given. -/
def quote? : TokenReader (Option Char) := do
  if (← peek?) = some .comma then
    let _ ← next
    let quote ← text
    match quote.value.toList with
    | [c] => return some c
    | _ => throw (.plain "quote must be a single character" quote.span)
  else return none

/-- A qualified name of two or three parts, and its quote. -/
def qualifiedName (directive : Span) : TokenReader QualifiedName := do
  let first ← ident
  let others ← nameParts (← get).tokens.length
  let quote := (← quote?).getD QualifiedName.defaultQuote
  match first.value :: others with
  | [schema, name] => return ⟨none, schema, name, quote⟩
  | [database, schema, name] => return ⟨some database, schema, name, quote⟩
  | _ => throw (.plain "expected schema.name or database.schema.name" directive)

end TokenReader

/-- Reads a nested template, given the offset of its first byte, whether it stands inside a cycle,
and its text. -/
abbrev Nested := Nat → Bool → List Char → Except ParseError (List Node)

/-- The names of directives, as hints list them. -/
def directiveNames : String := "schema, variant, cycle, item, indent, delimiter, row_delimiter"

namespace Directive

open TokenReader

/-- A quoted text, read as a template. Its first byte is the one after the quote. -/
def template (nested : Nested) (inCycle : Bool) : TokenReader (List Node) := do
  let source ← text
  nested (source.span.start + 1) inCycle source.value.toList

/-- The arguments of a directive after its name and the colon. -/
def arguments (nested : Nested) (span : Span) (inCycle : Bool) (head : Located String) :
    TokenReader Node := do
  match head.value with
  | "schema" => return .qualified (← qualifiedName span)
  | "variant" =>
    let id ← ident
    comma
    let main ← template nested inCycle
    comma
    let alternative ← template nested inCycle
    return .variant id.value main alternative
  | "cycle" =>
    let id ← ident
    comma
    let body ← template nested true
    comma
    let delimiter ← text
    if (← peek?).isSome then
      comma
      let emptyCase ← template nested inCycle
      return .cycle id.value body delimiter.value emptyCase
    else return .cycle id.value body delimiter.value []
  | "item" =>
    let index ← integer
    if inCycle then return .item index
    else
      throw ((ParseError.plain "cycle item outside of a cycle body" span).withHint
        "\x7bitem:N\x7d is only valid inside \x7bcycle:...\x7d")
  | "indent" => return .container (← template nested inCycle) true
  | "delimiter" => return .delimiter (← text).value .column
  | "row_delimiter" => return .delimiter (← text).value .row
  | name =>
    throw ((ParseError.plain s!"unknown directive '{name}'" head.span).withHint
      s!"expected one of {directiveNames}")

/-- A whole directive; `span` includes its braces. -/
def directive (nested : Nested) (span : Span) (inCycle : Bool) : TokenReader Node := do
  let head ← ident
  if (← peek?).isNone then
    finish
    return .placeholder head.value none
  else
    colon
    let node ← arguments nested span inCycle head
    finish
    return node

/-- Reads the directive with a content between its braces. -/
def parse (extent : Token.Extent) (nested : Nested) (span : Span) (inCycle : Bool)
    (content : List Char) : Except ParseError Node :=
  let stream := TokenStream.ofText extent (span.start + 1) content
  match stream.tokens, stream.failure with
  | [], none => .error (.plain "empty directive" span)
  | _, _ => (directive nested span inCycle).run' stream

end Directive

end Template

end QueryPlanner
