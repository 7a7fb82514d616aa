import QueryPlanner.Template.Compaction
import QueryPlanner.Template.Error
import QueryPlanner.Template.Settings

/-!
# Rendering templates

The text of a template under settings. Layout nodes that were not compacted are rendered as the text
they hold.
-/

namespace QueryPlanner

namespace Template

/-- A part of a name in quotes; quotes inside it are doubled. -/
def quotePart (quote : Char) (part : String) : String :=
  let chars := part.toList.flatMap fun c => if c = quote then [c, c] else [c]
  String.ofList (quote :: chars ++ [quote])

/-- The new name of a database or schema, or the same one. -/
def mapped (names : Table String) (name : String) : String := (names.lookup name).getD name

/-- A qualified name under the new names. -/
def QualifiedName.render (databases schemas : Table String) (q : QualifiedName) : String :=
  let database :=
    match q.database with
    | some database => quotePart q.quote (mapped databases database) ++ "."
    | none => ""
  database ++ quotePart q.quote (mapped schemas q.schema) ++ "." ++ quotePart q.quote q.name

namespace Node

/-- The text of a placeholder. -/
def renderPlaceholder (s : Settings) (id : String) :
    Option QualifiedName → Except RenderError String
  | none =>
    match s.placeholders.lookup id with
    | some value => .ok value
    | none => .error (.missingPlaceholder id)
  | some name =>
    match s.databases, s.schemas with
    | some databases, some schemas => .ok (name.render databases schemas)
    | _, _ => .error (.missingMappings id)

/-- The text of an item of the current row. -/
def renderItem (index : Nat) : Option (List String) → Except RenderError String
  | none => .error (.itemOutsideCycle index)
  | some row =>
    match row[index]? with
    | some value => .ok value
    | none => .error (.itemOutOfRange index row.length)

mutual

/-- The text of a node; `row` is the current row of the innermost cycle. -/
def render (s : Settings) (row : Option (List String)) : Node → Except RenderError String
  | .text literal => .ok literal
  | .container children _ => renderAll s row children
  | .variant id main alternative =>
    if s.isAlternative id then renderAll s row alternative else renderAll s row main
  | .placeholder id name => renderPlaceholder s id name
  | .cycle id body separator emptyCase =>
    match s.cycles.lookup id with
    | none => .error (.missingCycle id)
    | some [] => renderAll s row emptyCase
    | some rows => do
      let texts ← rows.mapM fun current => renderAll s (some current) body
      return separator.intercalate texts
  | .item index => renderItem index row
  | .delimiter literal .column => .ok (literal ++ " ")
  | .delimiter literal .row => .ok (literal ++ "\n")

/-- The text of several nodes. -/
def renderAll (s : Settings) (row : Option (List String)) : List Node → Except RenderError String
  | [] => .ok ""
  | n :: ns => do
    let first ← render s row n
    let rest ← renderAll s row ns
    return first ++ rest

end

end Node

/-- The text of nodes, compacted or not. -/
def renderNodes (s : Settings) (nodes : List Node) : Except RenderError String :=
  Node.renderAll s none nodes

/-- The text of a compacted template. -/
def Compiled.render (c : Compiled) (s : Settings) : Except RenderError String :=
  renderNodes s c.nodes

end Template

end QueryPlanner
