import QueryPlanner.Data.Basic

/-!
# Plain data as JSON text

Reading and writing of `Data` as JSON. Written text is ASCII: other characters are escaped by their
UTF-16 units. A number without fraction and exponent is an integer if 64 bits hold it; every other
number, and a negative zero, is a real.
-/

namespace QueryPlanner.Data

/-! ### Writing -/

/-- A 16-bit unit as four hexadecimal digits after its mark. -/
def escapeUnit (n : Nat) : List Char :=
  let digits := Nat.toDigits 16 n
  ['\\', 'u'] ++ List.replicate (4 - digits.length) '0' ++ digits

/-- One character of a text. -/
def jsonChar (c : Char) : List Char :=
  let n := c.toNat
  if c = '"' then ['\\', '"']
  else if c = '\\' then ['\\', '\\']
  else if 32 ≤ n ∧ n < 127 then [c]
  else if n < 0x10000 then escapeUnit n
  else escapeUnit (0xD800 + (n - 0x10000) / 0x400) ++ escapeUnit (0xDC00 + (n - 0x10000) % 0x400)

/-- A text in quotes, with its characters escaped. -/
def jsonText (s : String) : String :=
  String.ofList ('"' :: s.toList.flatMap jsonChar ++ ['"'])

mutual

/-- JSON text of a tree. Numbers that JSON cannot express are written as null. -/
def toJson : Data → String
  | .null => "null"
  | .bool true => "true"
  | .bool false => "false"
  | .int n => toString n
  | .real x => if x.isFinite then x.text else "null"
  | .text s => jsonText s
  | .list items => "[" ++ ",".intercalate (itemsToJson items) ++ "]"
  | .record fields => "\x7b" ++ ",".intercalate (fieldsToJson fields) ++ "\x7d"

/-- JSON texts of items. -/
def itemsToJson : List Data → List String
  | [] => []
  | d :: ds => d.toJson :: itemsToJson ds

/-- JSON texts of fields. -/
def fieldsToJson : List (String × Data) → List String
  | [] => []
  | (name, d) :: fs => (jsonText name ++ ":" ++ d.toJson) :: fieldsToJson fs

end

/-! ### Reading -/

/-- The text after the blanks at its beginning. -/
def skipBlanks (cs : List Char) : List Char :=
  cs.dropWhile fun c => c == ' ' || c == '\t' || c == '\n' || c == '\r'

/-- The value of a hexadecimal digit, in either case. -/
def hexValue? (c : Char) : Option Nat :=
  if '0' ≤ c ∧ c ≤ '9' then some (c.toNat - 48)
  else if 'a' ≤ c ∧ c ≤ 'f' then some (c.toNat - 87)
  else if 'A' ≤ c ∧ c ≤ 'F' then some (c.toNat - 55)
  else none

/-- Four hexadecimal digits. -/
def readUnit? : List Char → Option (Nat × List Char)
  | a :: b :: c :: d :: rest => do
    let a ← hexValue? a
    let b ← hexValue? b
    let c ← hexValue? c
    let d ← hexValue? d
    return (((a * 16 + b) * 16 + c) * 16 + d, rest)
  | _ => none

/-- The character an escape of UTF-16 units stands for; a high unit needs its low one. -/
def readEscape? (cs : List Char) : Option (Char × List Char) := do
  let (high, rest) ← readUnit? cs
  if 0xD800 ≤ high ∧ high < 0xDC00 then
    match rest with
    | '\\' :: 'u' :: rest =>
      let (low, rest) ← readUnit? rest
      if 0xDC00 ≤ low ∧ low < 0xE000 then
        return (Char.ofNat (0x10000 + (high - 0xD800) * 0x400 + (low - 0xDC00)), rest)
      else none
    | _ => none
  else if 0xDC00 ≤ high ∧ high < 0xE000 then none
  else return (Char.ofNat high, rest)

/-- The rest of a text after its opening quote. -/
def readText? : Nat → List Char → List Char → Option (String × List Char)
  | 0, _, _ => none
  | fuel + 1, acc, cs =>
    match cs with
    | '"' :: rest => some (String.ofList acc.reverse, rest)
    | '\\' :: 'u' :: rest => do
      let (c, rest) ← readEscape? rest
      readText? fuel (c :: acc) rest
    | '\\' :: c :: rest =>
      match c with
      | '"' | '\\' | '/' => readText? fuel (c :: acc) rest
      | 'n' => readText? fuel ('\n' :: acc) rest
      | 't' => readText? fuel ('\t' :: acc) rest
      | 'r' => readText? fuel ('\r' :: acc) rest
      | 'b' => readText? fuel (Char.ofNat 8 :: acc) rest
      | 'f' => readText? fuel (Char.ofNat 12 :: acc) rest
      | _ => none
    | c :: rest => if c.toNat < 32 then none else readText? fuel (c :: acc) rest
    | [] => none

/-- The value of decimal digits. -/
def digitsValue (cs : List Char) : Nat := cs.foldl (fun n c => n * 10 + (c.toNat - 48)) 0

/-- The digits at the beginning of a text, and the text after them. -/
def takeDigits (cs : List Char) : List Char × List Char := cs.span Char.isDigit

/-- An exponent, if there is one. -/
def readExponent? : List Char → Option (Option Int × List Char)
  | c :: rest =>
    if c = 'e' ∨ c = 'E' then
      let (negative, rest) :=
        match rest with
        | '-' :: rest => (true, rest)
        | '+' :: rest => (false, rest)
        | rest => (false, rest)
      let (ds, rest) := takeDigits rest
      if ds.isEmpty then none
      else
        let n : Int := digitsValue ds
        some (some (if negative then -n else n), rest)
    else some (none, c :: rest)
  | [] => some (none, [])

/-- An integer, or the real nearest to it when 64 bits do not hold it. -/
def ofInteger (negative : Bool) (n : Nat) : Data :=
  if negative then
    if n = 0 ∨ -(n : Int) < Int64.minValue.toInt then .real (.ofParts true n 0)
    else .int (-(n : Int))
  else if n < UInt64.size then .int n else .real (.ofParts false n 0)

/-- A number, which is an integer unless it has a fraction or an exponent. -/
def readNumber? (cs : List Char) : Option (Data × List Char) := do
  let (negative, cs) :=
    match cs with
    | '-' :: rest => (true, rest)
    | cs => (false, cs)
  let (whole, cs) := takeDigits cs
  if whole.isEmpty then none
  else
    let (fraction, cs) :=
      match cs with
      | '.' :: rest => let (ds, rest) := takeDigits rest; (some ds, rest)
      | cs => (none, cs)
    let (exponent, cs) ← readExponent? cs
    match fraction, exponent with
    | none, none => return (ofInteger negative (digitsValue whole), cs)
    | _, _ =>
      let ds := fraction.getD []
      let e : Int := exponent.getD 0 - ds.length
      return (.real (.ofDecimal negative (digitsValue (whole ++ ds)) e), cs)

mutual

/-- One value from the front of a text. -/
def readValue? : Nat → List Char → Option (Data × List Char)
  | 0, _ => none
  | fuel + 1, cs =>
    match skipBlanks cs with
    | 'n' :: 'u' :: 'l' :: 'l' :: rest => some (.null, rest)
    | 't' :: 'r' :: 'u' :: 'e' :: rest => some (.bool true, rest)
    | 'f' :: 'a' :: 'l' :: 's' :: 'e' :: rest => some (.bool false, rest)
    | '"' :: rest => do
      let (s, rest) ← readText? (rest.length + 1) [] rest
      return (.text s, rest)
    | '[' :: rest =>
      match skipBlanks rest with
      | ']' :: rest => some (.list [], rest)
      | rest => do
        let (items, rest) ← readItems? fuel rest
        return (.list items, rest)
    | '\x7b' :: rest =>
      match skipBlanks rest with
      | '\x7d' :: rest => some (.record [], rest)
      | rest => do
        let (fields, rest) ← readFields? fuel rest
        return (.record fields, rest)
    | rest => readNumber? rest

/-- The items of a list up to its closing bracket. -/
def readItems? : Nat → List Char → Option (List Data × List Char)
  | 0, _ => none
  | fuel + 1, cs => do
    let (d, rest) ← readValue? fuel cs
    match skipBlanks rest with
    | ',' :: rest =>
      let (ds, rest) ← readItems? fuel rest
      return (d :: ds, rest)
    | ']' :: rest => return ([d], rest)
    | _ => none

/-- The fields of a record up to its closing brace; of fields with one name the last counts. -/
def readFields? : Nat → List Char → Option (List (String × Data) × List Char)
  | 0, _ => none
  | fuel + 1, cs => do
    match skipBlanks cs with
    | '"' :: rest =>
      let (name, rest) ← readText? (rest.length + 1) [] rest
      match skipBlanks rest with
      | ':' :: rest =>
        let (d, rest) ← readValue? fuel rest
        match skipBlanks rest with
        | ',' :: rest =>
          let (fs, rest) ← readFields? fuel rest
          return (if fs.any (fun f => f.1 == name) then fs else (name, d) :: fs, rest)
        | '\x7d' :: rest => return ([(name, d)], rest)
        | _ => none
      | _ => none
    | _ => none

end

/-- The tree of a JSON text, if it is one value and nothing more. -/
def ofJson? (s : String) : Option Data := do
  let cs := s.toList
  let (d, rest) ← readValue? (cs.length + 1) cs
  if (skipBlanks rest).isEmpty then some d else none

end QueryPlanner.Data
