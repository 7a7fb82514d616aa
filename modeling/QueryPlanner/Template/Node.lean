/-!
# Templates

A template is a list of nodes: literal text, values put in when it is rendered, choices,
repetitions, and nodes that only lay text out.

* `Node` — the nodes.
* `Node.literalSize` — how much literal text a node holds.
-/

namespace QueryPlanner

namespace Template

/-- A name of a schema, quoted part by part when rendered. -/
structure QualifiedName where
  database : Option String
  schema : String
  name : String
  quote : Char
  deriving DecidableEq, Inhabited

namespace QualifiedName

/-- The quote of names that give none. -/
def defaultQuote : Char := '"'

/-- The parts, with points between them. -/
def dotted (q : QualifiedName) : String :=
  match q.database with
  | some database => s!"{database}.{q.schema}.{q.name}"
  | none => s!"{q.schema}.{q.name}"

end QualifiedName

/-- What follows a delimiter: a blank or a new line. -/
inductive DelimiterKind where
  | column
  | row
  deriving DecidableEq, Inhabited

/-- A node of a template. -/
inductive Node where
  | text (text : String)
  /-- Several nodes, on lines of their own if indented. -/
  | container (children : List Node) (isIndented : Bool)
  /-- One of two renderings. -/
  | variant (id : String) (main alternative : List Node)
  /-- A value, or a qualified name. -/
  | placeholder (id : String) (name : Option QualifiedName)
  /-- The body once for each row of values, or the empty case without any. -/
  | cycle (id : String) (body : List Node) (delimiter : String) (emptyCase : List Node)
  /-- A value of the current row. -/
  | item (index : Nat)
  | delimiter (text : String) (kind : DelimiterKind)
  deriving Inhabited

namespace Node

/-- The placeholder of a qualified name. -/
def qualified (name : QualifiedName) : Node := .placeholder name.dotted (some name)

mutual

/-- The bytes of literal text in a node, the larger branch of each choice counted. -/
def literalSize : Node → Nat
  | .text literal => literal.utf8ByteSize
  | .container children _ => literalSizeAll children
  | .variant _ main alternative => max (literalSizeAll main) (literalSizeAll alternative)
  | .placeholder _ _ => 0
  | .cycle _ body separator emptyCase =>
    literalSizeAll body + separator.utf8ByteSize + literalSizeAll emptyCase
  | .item _ => 0
  | .delimiter literal _ => literal.utf8ByteSize

/-- The bytes of literal text in several nodes. -/
def literalSizeAll : List Node → Nat
  | [] => 0
  | n :: ns => literalSize n + literalSizeAll ns

end

mutual

/-- Structural equality. -/
def same : Node → Node → Bool
  | .text a, .text b => a == b
  | .container a i, .container b j => sameAll a b && i == j
  | .variant i m a, .variant j n b => i == j && sameAll m n && sameAll a b
  | .placeholder i n, .placeholder j m => i == j && n == m
  | .cycle i b d e, .cycle j c f g => i == j && sameAll b c && d == f && sameAll e g
  | .item i, .item j => i == j
  | .delimiter a k, .delimiter b l => a == b && k == l
  | _, _ => false

/-- Structural equality of lists. -/
def sameAll : List Node → List Node → Bool
  | [], [] => true
  | a :: as, b :: bs => same a b && sameAll as bs
  | _, _ => false

end

mutual

theorem same_iff (a b : Node) : same a b ↔ a = b := by
  cases a with
  | text _ | placeholder _ _ | item _ | delimiter _ _ => cases b <;> simp [same]
  | container as _ => cases b <;> simp [same, sameAll_iff as]
  | variant _ as cs => cases b <;> simp [same, sameAll_iff as, sameAll_iff cs, and_assoc]
  | cycle _ as _ cs => cases b <;> simp [same, sameAll_iff as, sameAll_iff cs, and_assoc]

theorem sameAll_iff (as bs : List Node) : sameAll as bs ↔ as = bs := by
  cases as with
  | nil => cases bs <;> simp [sameAll]
  | cons a as => cases bs <;> simp [sameAll, same_iff a, sameAll_iff as]

end

/-- Nodes are equal if they are the same structurally. -/
instance : DecidableEq Node := fun a b => decidable_of_iff _ (same_iff a b)

end Node

end Template

end QueryPlanner
