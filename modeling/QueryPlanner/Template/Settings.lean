/-!
# What templates are rendered with

Values for placeholders and cycles, the variants to take, and new names for databases and schemas. A
table maps names to values; a name occurs in it once.
-/

namespace QueryPlanner

namespace Template

/-- Values by name, each name once. -/
abbrev Table (α : Type) := List (String × α)

/-- The table with the value of a name set. -/
def Table.insert {α : Type} (t : Table α) (name : String) (value : α) : Table α :=
  (t.filter fun e => e.1 != name) ++ [(name, value)]

/-- What a template is rendered with. -/
structure Settings where
  placeholders : Table String
  /-- The variants of which the alternative is taken. -/
  alternatives : List String
  /-- The rows of each cycle. -/
  cycles : Table (List (List String))
  /-- New names of databases; names not listed stay. -/
  databases : Option (Table String)
  /-- New names of schemas; names not listed stay. -/
  schemas : Option (Table String)
  deriving Inhabited

namespace Settings

/-- Nothing is set, and names cannot be mapped. -/
def empty : Settings := ⟨[], [], [], none, none⟩

/-- Sets the value of a placeholder. -/
def withPlaceholder (s : Settings) (id value : String) : Settings :=
  { s with placeholders := s.placeholders.insert id value }

/-- Takes the alternative of a variant. -/
def withAlternative (s : Settings) (id : String) : Settings :=
  { s with alternatives := if s.alternatives.contains id then s.alternatives
                           else s.alternatives ++ [id] }

/-- Sets the rows of a cycle. -/
def withCycle (s : Settings) (id : String) (rows : List (List String)) : Settings :=
  { s with cycles := s.cycles.insert id rows }

/-- Renames a database. -/
def withDatabase (s : Settings) (old new : String) : Settings :=
  { s with databases := some (Table.insert (s.databases.getD []) old new) }

/-- Renames a schema. -/
def withSchema (s : Settings) (old new : String) : Settings :=
  { s with schemas := some (Table.insert (s.schemas.getD []) old new) }

/-- Lets qualified names stay as they are where nothing renames them. -/
def withIdentityMappings (s : Settings) : Settings :=
  { s with databases := some (s.databases.getD []), schemas := some (s.schemas.getD []) }

/-- Whether the alternative of a variant is taken. -/
def isAlternative (s : Settings) (id : String) : Bool := s.alternatives.contains id

end Settings

end Template

end QueryPlanner
