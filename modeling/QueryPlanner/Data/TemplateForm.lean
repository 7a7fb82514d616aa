import QueryPlanner.Data.Basic
import QueryPlanner.Template.Node
import QueryPlanner.Template.Settings

/-!
# Templates as plain data

The stored form of templates and of what they are rendered with.
-/

namespace QueryPlanner

namespace Template

namespace QualifiedName

/-- Reads the stored form of a qualified name. The database may be left out. -/
def ofData? (d : Data) : Option QualifiedName := do
  let [database, schema, name, quote] ← d.fields? ["database", "schema", "name", "quote"] | none
  return ⟨← Data.optional? Data.text? database, ← (← schema).text?, ← (← name).text?,
    ← (← quote).char?⟩

/-- The stored form of a qualified name. -/
def toData (q : QualifiedName) : Data :=
  .record
    [("database", .ofOption .text q.database), ("schema", .text q.schema), ("name", .text q.name),
      ("quote", .text (String.singleton q.quote))]

end QualifiedName

namespace Node

/-- The kinds of delimiters by their stored names. -/
def delimiterKinds : List (String × DelimiterKind) := [("Column", .column), ("Row", .row)]

/-- A node in data of at most some depth. -/
def readWithin : Nat → Data → Option Node
  | 0, _ => none
  | depth + 1, d => do
    let nodes := Data.listOf? (readWithin depth)
    let (tag, content) ← d.alternative?
    let content ← content
    match tag with
    | "Text" =>
      let [literal] ← content.fields? ["text"] | none
      return .text (← (← literal).text?)
    | "Container" =>
      let [children, isIndented] ← content.fields? ["children", "require_indent"] | none
      return .container (← nodes (← children)) (← (← isIndented).bool?)
    | "Variant" =>
      let [id, main, alternative] ← content.fields? ["id", "main", "alternative"] | none
      return .variant (← (← id).text?) (← nodes (← main)) (← nodes (← alternative))
    | "Placeholder" =>
      let [id, name] ← content.fields? ["id", "qualified"] | none
      return .placeholder (← (← id).text?) (← Data.optional? QualifiedName.ofData? name)
    | "Cycle" =>
      let [id, body, separator, emptyCase] ←
        content.fields? ["id", "body", "delimiter", "empty_case"] | none
      return .cycle (← (← id).text?) (← nodes (← body)) (← (← separator).text?)
        (← nodes (← emptyCase))
    | "CycleItem" =>
      let [index] ← content.fields? ["index"] | none
      return .item (← (← index).nat? 64)
    | "Delimiter" =>
      let [literal, kind] ← content.fields? ["text", "kind"] | none
      return .delimiter (← (← literal).text?) (← (← kind).oneOf? delimiterKinds)
    | _ => none

/-- Reads the stored form of a node. No node is nested deeper than its data. -/
def ofData? (d : Data) : Option Node := readWithin d.depth d

mutual

/-- The stored form of a node. -/
def toData : Node → Data
  | .text literal => .tagged "Text" (.record [("text", .text literal)])
  | .container children isIndented =>
    .tagged "Container" (.record
      [("children", .list (allToData children)), ("require_indent", .bool isIndented)])
  | .variant id main alternative =>
    .tagged "Variant" (.record
      [("id", .text id), ("main", .list (allToData main)),
        ("alternative", .list (allToData alternative))])
  | .placeholder id name =>
    .tagged "Placeholder" (.record
      [("id", .text id), ("qualified", .ofOption QualifiedName.toData name)])
  | .cycle id body separator emptyCase =>
    .tagged "Cycle" (.record
      [("id", .text id), ("body", .list (allToData body)), ("delimiter", .text separator),
        ("empty_case", .list (allToData emptyCase))])
  | .item index => .tagged "CycleItem" (.record [("index", .ofNat index)])
  | .delimiter literal .column =>
    .tagged "Delimiter" (.record [("text", .text literal), ("kind", .text "Column")])
  | .delimiter literal .row =>
    .tagged "Delimiter" (.record [("text", .text literal), ("kind", .text "Row")])

/-- Several nodes, each as data. -/
def allToData : List Node → List Data
  | [] => []
  | n :: ns => n.toData :: allToData ns

end

end Node

namespace Settings

/-- The fields of settings, in their stored sequence. -/
def fieldNames : List String :=
  ["placeholder_values", "alternative_branches", "dynamic_filter_values", "database_mapping",
    "schema_mapping"]

/-- The fields of settings; those left out are open. A list may end early. -/
def openFields? : Data → Option (List (Option Data))
  | .list items =>
    if items.length ≤ fieldNames.length then
      some (items.map some ++ List.replicate (fieldNames.length - items.length) none)
    else none
  | d => d.fields? fieldNames

/-- A field, or the value for one left out. -/
def field? {α : Type} (read : Data → Option α) (absent : α) : Option Data → Option α
  | none => some absent
  | some d => read d

/-- Reads texts by name. -/
def texts? : Data → Option (Table String) := Data.mapOf? Data.text?

/-- Reads the stored form of settings. An alternative listed again counts once. -/
def ofData? (d : Data) : Option Settings := do
  let [placeholders, alternatives, cycles, databases, schemas] ← openFields? d | none
  let rows := Data.listOf? (Data.listOf? Data.text?)
  return {
    placeholders := ← field? texts? [] placeholders
    alternatives := (← field? (Data.listOf? Data.text?) [] alternatives).eraseDups
    cycles := ← field? (Data.mapOf? rows) [] cycles
    databases := ← Data.optional? texts? databases
    schemas := ← Data.optional? texts? schemas }

/-- The stored form of settings, with the alternatives in the order of their names. -/
def toData (s : Settings) : Data :=
  let rename := Data.ofOption (Data.ofMap Data.text)
  .record (fieldNames.zip
    [.ofMap .text s.placeholders,
      .ofTexts (s.alternatives.mergeSort fun a b => a ≤ b),
      .ofMap (Data.ofList Data.ofTexts) s.cycles,
      rename s.databases,
      rename s.schemas])

end Settings

end Template

end QueryPlanner
