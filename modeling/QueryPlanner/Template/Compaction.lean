import QueryPlanner.Template.Node

/-!
# Compacting templates

Nodes that only lay text out are carried out once, and the literal text between two other nodes
becomes a single node. Blanks before a line break go, and so do blanks before a closing parenthesis
unless they indent it.

* `Draft` — a template being compacted: finished nodes and the text after them.
* `Compiled` — a compacted template.
* `compile` — the compacted form of a list of nodes.
-/

namespace QueryPlanner

namespace Template

/-- A template being compacted. -/
structure Draft where
  /-- The text after the finished nodes, last character first. -/
  pending : List Char
  nodes : List Node
  deriving Inhabited

namespace Draft

/-- Nothing was taken up yet. -/
def empty : Draft := ⟨[], []⟩

/-- Text without the blanks at its end; characters are given last first. -/
def trim (reversed : List Char) : List Char := reversed.dropWhile fun c => c == ' '

/-- Makes a node of the pending text. -/
def flush (d : Draft) : Draft :=
  if d.pending.isEmpty then d else ⟨[], d.nodes ++ [.text (String.ofList d.pending.reverse)]⟩

/-- All nodes, the pending text included. -/
def finish (d : Draft) : List Node := d.flush.nodes

/-- Makes a node of the pending text and adds another node. -/
def push (d : Draft) (node : Node) : Draft := ⟨[], d.finish ++ [node]⟩

/-- Whether the pending text is a line with blanks only, which indent what follows. -/
def isIndentation (d : Draft) : Bool := (trim d.pending).head? == some '\n'

/-- Adds text. A closing parenthesis moves up to the text before it. -/
def append (d : Draft) (text : String) : Draft :=
  let chars := text.toList
  let pending :=
    if chars.head? == some ')' && !d.isIndentation then trim d.pending else d.pending
  { d with pending := chars.reverse ++ pending }

/-- Begins a new line with a number of blanks. -/
def newline (d : Draft) (indent : Nat) : Draft :=
  { d with pending := List.replicate indent ' ' ++ '\n' :: trim d.pending }

mutual

/-- Adds a node; `width` is the width of a level of indentation, and `level` the current one. -/
def add (width level : Nat) (d : Draft) : Node → Draft
  | .text text => d.append text
  | .container children false => d.addAll width level children
  | .container children true =>
    ((d.newline ((level + 1) * width)).addAll width (level + 1) children).newline (level * width)
  | .variant id main alternative =>
    d.push (.variant id (empty.addAll width level main).finish
      (empty.addAll width level alternative).finish)
  | .placeholder id name => d.push (.placeholder id name)
  | .cycle id body delimiter emptyCase =>
    d.push (.cycle id (empty.addAll width level body).finish delimiter
      (empty.addAll width level emptyCase).finish)
  | .item index => d.push (.item index)
  | .delimiter text .column => (d.append text).append " "
  | .delimiter text .row => (d.append text).newline (level * width)

/-- Adds several nodes. -/
def addAll (width level : Nat) (d : Draft) : List Node → Draft
  | [] => d
  | n :: ns => addAll width level (add width level d n) ns

end

end Draft

/-- A compacted template. -/
structure Compiled where
  nodes : List Node
  /-- The bytes of literal text. -/
  literalSize : Nat
  deriving Inhabited

namespace Compiled

/-- Structural equality. -/
def same (a b : Compiled) : Bool := Node.sameAll a.nodes b.nodes && a.literalSize == b.literalSize

end Compiled

/-- The usual width of a level of indentation. -/
def defaultIndent : Nat := 2

/-- The compacted form of nodes, with a width for each level of indentation. -/
def compile (width : Nat) (nodes : List Node) : Compiled :=
  let compacted := (Draft.empty.addAll width 0 nodes).finish
  ⟨compacted, Node.literalSizeAll compacted⟩

end Template

end QueryPlanner
