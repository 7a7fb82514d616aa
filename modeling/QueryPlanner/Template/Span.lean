/-!
# Places in a source text

Spans are half-open ranges of byte offsets in the encoded text. For readers an offset is turned into
a line and a column, which count characters.
-/

namespace QueryPlanner

namespace Template

/-- A range of byte offsets; the end is excluded. -/
structure Span where
  start : Nat
  stop : Nat
  deriving DecidableEq, Inhabited

namespace Span

/-- The smallest span around two. -/
def merge (a b : Span) : Span := ⟨min a.start b.start, max a.stop b.stop⟩

/-- The span moved to the right. -/
def offset (s : Span) (base : Nat) : Span := ⟨s.start + base, s.stop + base⟩

/-- The number of bytes. -/
def size (s : Span) : Nat := s.stop - s.start

/-- Whether a span has no bytes. -/
def isEmpty (s : Span) : Bool := s.start == s.stop

end Span

/-- A value and where it stands. -/
structure Located (α : Type) where
  value : α
  span : Span
  deriving DecidableEq, Inhabited

/-- How many bytes a text takes. -/
def byteSize : List Char → Nat
  | [] => 0
  | c :: cs => c.utf8Size + byteSize cs

/-- A line and a column, both counted from one. -/
structure Position where
  line : Nat
  column : Nat
  deriving DecidableEq, Inhabited

namespace Position

/-- The position after a character. -/
def advance (p : Position) (c : Char) : Position :=
  if c = '\n' then ⟨p.line + 1, 1⟩ else ⟨p.line, p.column + 1⟩

/-- The position `remaining` bytes further on in a text. An offset inside a character counts as the
one after it. -/
def walk (p : Position) (remaining : Nat) : List Char → Position
  | [] => p
  | c :: cs => if remaining = 0 then p else (p.advance c).walk (remaining - c.utf8Size) cs

/-- The position of a byte offset in a text. -/
def ofOffset (source : String) (offset : Nat) : Position := walk ⟨1, 1⟩ offset source.toList

end Position

/-- The lines of a text. A line ends with a line feed, and a carriage return before it belongs to
the ending; a text that ends with one has no further line. -/
def splitLines : List Char → List (List Char)
  | [] => []
  | '\r' :: '\n' :: cs => [] :: splitLines cs
  | '\n' :: cs => [] :: splitLines cs
  | c :: cs =>
    match splitLines cs with
    | [] => [[c]]
    | line :: rest => (c :: line) :: rest

end Template

end QueryPlanner
