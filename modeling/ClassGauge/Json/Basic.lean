import ClassGauge.Number.Digit

/-! # JSON

Values, and the text of strings. A string is written between quotes; quotes and backslashes in it and
control characters are escaped, all other characters stand for themselves.
-/

namespace ClassGauge.Json

/-- A JSON value. Of numbers, those that are natural are told apart from all others. -/
inductive Value where
  | null
  | bool (b : Bool)
  | natural (n : Nat)
  /-- A number that is negative or written with a fraction or an exponent, as it is written. -/
  | number (text : String)
  | string (s : String)
  | array (items : List Value)
  | object (fields : List (String × Value))

/-- A character inside a string. -/
def escapeChar (c : Char) : List Char :=
  if c = '"' then ['\\', '"']
  else if c = '\\' then ['\\', '\\']
  else if c = '\x08' then ['\\', 'b']
  else if c = '\x0c' then ['\\', 'f']
  else if c = '\n' then ['\\', 'n']
  else if c = '\r' then ['\\', 'r']
  else if c = '\t' then ['\\', 't']
  else if c.toNat < 32 then
    ['\\', 'u', '0', '0', digitChar (c.toNat / 16), digitChar (c.toNat % 16)]
  else [c]

def quote (s : String) : String :=
  String.ofList ('"' :: (s.toList.flatMap escapeChar ++ ['"']))

end ClassGauge.Json
