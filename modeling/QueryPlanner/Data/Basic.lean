import QueryPlanner.Numeric.Shortest

/-!
# Plain data

A tree of plain values, the form in which settings, plans' parts and templates are stored and
exchanged. A record has named fields; an alternative of a type is either its bare name or a record
with that name as its only field.

* `Data` — the tree.
* `Data.fields?` — the fields of a structure, from a record by name or from a list by position.
* `Data.alternative?` — the name and content of an alternative.
-/

namespace QueryPlanner

/-- A tree of plain values. -/
inductive Data where
  | null
  | bool (b : Bool)
  | int (n : Int)
  | real (x : Double)
  | text (s : String)
  | list (items : List Data)
  | record (fields : List (String × Data))
  deriving Inhabited

namespace Data

/-! ### Reading -/

/-- The truth value of a Boolean. -/
def bool? : Data → Option Bool
  | .bool b => some b
  | _ => none

/-- The text of a text. -/
def text? : Data → Option String
  | .text s => some s
  | _ => none

/-- The items of a list. -/
def list? : Data → Option (List Data)
  | .list items => some items
  | _ => none

/-- The fields of a record. -/
def record? : Data → Option (List (String × Data))
  | .record fields => some fields
  | _ => none

/-- An integer within limits. -/
def int? (low high : Int) : Data → Option Int
  | .int n => if low ≤ n ∧ n ≤ high then some n else none
  | _ => none

/-- A count: an integer from zero to below `2 ^ width`. -/
def nat? (width : Nat) (d : Data) : Option Nat :=
  (d.int? 0 (Nat.pow 2 width - 1 : Nat)).map Int.toNat

/-- A number; integers are taken for numbers. -/
def real? : Data → Option Double
  | .real x => some x
  | .int n => some (.ofInt n)
  | _ => none

/-- A single character. -/
def char? : Data → Option Char
  | .text s =>
    match s.toList with
    | [c] => some c
    | _ => none
  | _ => none

/-- A value that may be absent; null stands for its absence. -/
def optional? {α : Type} (read : Data → Option α) : Option Data → Option (Option α)
  | none => some none
  | some .null => some none
  | some d => (read d).map some

/-- Every item of a list. -/
def listOf? {α : Type} (read : Data → Option α) (d : Data) : Option (List α) := do
  (← d.list?).mapM read

/-- Every field of a record used as a map. -/
def mapOf? {α : Type} (read : Data → Option α) (d : Data) : Option (List (String × α)) := do
  (← d.record?).mapM fun f => do return (f.1, ← read f.2)

/-- The fields of a structure in their declared order. A record gives them by name, and a missing
one stays open; a list gives all of them by position. -/
def fields? (names : List String) : Data → Option (List (Option Data))
  | .record fields => some (names.map fun name => fields.lookup name)
  | .list items => if items.length = names.length then some (items.map some) else none
  | _ => none

/-- The fields of an alternative, which a record gives by name. -/
def namedFields? (names : List String) : Data → Option (List (Option Data))
  | .record fields => some (names.map fun name => fields.lookup name)
  | _ => none

/-- Name and content of an alternative; a bare name has no content. -/
def alternative? : Data → Option (String × Option Data)
  | .text name => some (name, none)
  | .record [(name, content)] => some (name, some content)
  | _ => none

/-- The name of an alternative without content. -/
def tag? (d : Data) : Option String :=
  match d.alternative? with
  | some (name, none) => some name
  | some (name, some .null) => some name
  | _ => none

/-- The value that a tag names in a table. -/
def oneOf? {α : Type} (table : List (String × α)) (d : Data) : Option α := do
  table.lookup (← d.tag?)

mutual

/-- How deep a tree is; a single value has depth one. -/
def depth : Data → Nat
  | .list items => depthAll items + 1
  | .record fields => depthFields fields + 1
  | _ => 1

/-- The greatest depth of several trees. -/
def depthAll : List Data → Nat
  | [] => 0
  | d :: ds => max (depth d) (depthAll ds)

/-- The greatest depth of several fields. -/
def depthFields : List (String × Data) → Nat
  | [] => 0
  | (_, d) :: fs => max (depth d) (depthFields fs)

end

/-! ### Writing -/

/-- An alternative with content. -/
def tagged (name : String) (content : Data) : Data := .record [(name, content)]

/-- A count. -/
def ofNat (n : Nat) : Data := .int n

/-- A value that may be absent. -/
def ofOption {α : Type} (write : α → Data) : Option α → Data
  | none => .null
  | some a => write a

/-- A list, item by item. -/
def ofList {α : Type} (write : α → Data) (items : List α) : Data := .list (items.map write)

/-- A map, as a record. -/
def ofMap {α : Type} (write : α → Data) (entries : List (String × α)) : Data :=
  .record (entries.map fun e => (e.1, write e.2))

/-- A list of texts. -/
def ofTexts (texts : List String) : Data := ofList .text texts

end Data

end QueryPlanner
