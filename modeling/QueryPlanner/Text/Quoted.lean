import QueryPlanner.Text.Combining
import QueryPlanner.Text.Unprinted

/-!
# Quoted text

Text in double quotes, as values show it. Quotes, backslashes and the common control characters have
short escapes; every other character that has no printed form, or that would join the character
before it, is written by its code point in hexadecimal.
-/

namespace QueryPlanner.Text

/-- Whether a character is written by its code point: it has no printed form, or it would join the
character before it. -/
def isHidden (c : Char) : Bool :=
  isUnprinted c || isCombining c

/-- One character inside quotes. -/
def quoteChar (c : Char) : List Char :=
  if c = '"' then ['\\', '"']
  else if c = '\\' then ['\\', '\\']
  else if c = '\n' then ['\\', 'n']
  else if c = '\r' then ['\\', 'r']
  else if c = '\t' then ['\\', 't']
  else if c = Char.ofNat 0 then ['\\', '0']
  else if isHidden c then ['\\', 'u', '\x7b'] ++ Nat.toDigits 16 c.toNat ++ ['\x7d']
  else [c]

/-- A text in double quotes. -/
def quote (s : String) : String :=
  String.ofList ('"' :: s.toList.flatMap quoteChar ++ ['"'])

end QueryPlanner.Text
