import ClassGauge.Json.Basic
import ClassGauge.Text

/-! # Reading JSON

`Json.read?` reads a text that holds one JSON value with blanks around it, and nothing else.
-/

namespace ClassGauge.Json

def isBlank (c : Char) : Bool :=
  c = ' ' || c = '\n' || c = '\t' || c = '\r'

/-! ## Strings -/

/-- The character that a backslash and one character stand for; a slash may be escaped as well. -/
def unescape? : Char → Option Char
  | '/' => some '/'
  | c => simpleEscape? c

/-- The character that a high and a low surrogate stand for together. -/
def surrogatePair? (high low : Nat) : Option Char :=
  if 0xd800 ≤ high ∧ high < 0xdc00 ∧ 0xdc00 ≤ low ∧ low < 0xe000 then
    scalar? (0x10000 + (high - 0xd800) * 0x400 + (low - 0xdc00))
  else none

/-- The rest of a string behind its opening quote; `acc` holds what was read, last to first. -/
def readString (acc : List Char) : Reader String
  | [] => none
  | '"' :: cs => some (String.ofList acc.reverse, cs)
  | '\\' :: 'u' :: a :: b :: c :: d :: cs =>
    match numberOfDigits? 16 [a, b, c, d] with
    | none => none
    | some code =>
      match scalar? code with
      | some x => readString (x :: acc) cs
      | none =>
        match cs with
        | '\\' :: 'u' :: e :: f :: g :: h :: cs =>
          match (numberOfDigits? 16 [e, f, g, h]).bind (surrogatePair? code) with
          | some x => readString (x :: acc) cs
          | none => none
        | _ => none
  | '\\' :: c :: cs =>
    match unescape? c with
    | some x => readString (x :: acc) cs
    | none => none
  | c :: cs => if c.toNat < 32 then none else readString (c :: acc) cs

/-! ## Numbers -/

/-- Digits without a zero in front. -/
def readDigits (cs : List Char) : Option (List Char × List Char) :=
  match cs.span Char.isDigit with
  | ([], _) => none
  | ('0' :: _ :: _, _) => none
  | parts => some parts

/-- A fraction, if there is one: whether there is, and the rest. -/
def skipFraction : List Char → Option (Bool × List Char)
  | '.' :: cs =>
    match cs.span Char.isDigit with
    | ([], _) => none
    | (_, rest) => some (true, rest)
  | cs => some (false, cs)

/-- An exponent, if there is one: whether there is, and the rest. -/
def skipExponent : List Char → Option (Bool × List Char)
  | 'e' :: cs | 'E' :: cs =>
    let cs := match cs with
      | '+' :: cs | '-' :: cs => cs
      | cs => cs
    match cs.span Char.isDigit with
    | ([], _) => none
    | (_, rest) => some (true, rest)
  | cs => some (false, cs)

/-- A minus sign, if there is one: whether there is, and the rest. -/
def skipSign : List Char → Bool × List Char
  | '-' :: cs => (true, cs)
  | cs => (false, cs)

def readNumber (cs : List Char) : Option (Value × List Char) := do
  let (digits, rest) ← readDigits (skipSign cs).2
  let (fraction, rest) ← skipFraction rest
  let (exponent, rest) ← skipExponent rest
  if (skipSign cs).1 || fraction || exponent then
    return (.number (String.ofList (cs.take (cs.length - rest.length))), rest)
  else
    return (.natural (← numberOfDigits? 10 digits), rest)

/-! ## Values -/

/-- The entries of an array or an object behind its opening bracket or behind a comma, each read by
`entry`, up to the bracket `close`; `fuel` bounds their number. -/
def readEntries {α : Type} (entry : Reader α) (close : Char) : (fuel : Nat) → Reader (List α)
  | 0, _ => none
  | fuel + 1, cs =>
    match entry (skipBlanks isBlank cs) with
    | none => none
    | some (x, rest) =>
      match skipBlanks isBlank rest with
      | [] => none
      | c :: rest =>
        if c = ',' then (readEntries entry close fuel rest).map fun (xs, rest) => (x :: xs, rest)
        else if c = close then some ([x], rest)
        else none

/-- A field of an object, its value read by `item`. -/
def readField (item : Reader Value) : Reader (String × Value)
  | '"' :: cs =>
    match readString [] cs with
    | none => none
    | some (key, rest) =>
      match skipBlanks isBlank rest with
      | ':' :: rest => (item (skipBlanks isBlank rest)).map fun (v, rest) => ((key, v), rest)
      | _ => none
  | _ => none

/-- How deep arrays and objects may be nested. -/
def nestingLimit : Nat := 127

/-- A value in which arrays and objects are nested at most `depth` deep. -/
def readValue : (depth : Nat) → Reader Value
  | _, 'n' :: 'u' :: 'l' :: 'l' :: rest => some (.null, rest)
  | _, 't' :: 'r' :: 'u' :: 'e' :: rest => some (.bool true, rest)
  | _, 'f' :: 'a' :: 'l' :: 's' :: 'e' :: rest => some (.bool false, rest)
  | _, '"' :: cs => (readString [] cs).map fun (s, rest) => (.string s, rest)
  | depth + 1, '[' :: cs =>
    match skipBlanks isBlank cs with
    | ']' :: rest => some (.array [], rest)
    | _ =>
      (readEntries (readValue depth) ']' cs.length cs).map fun (vs, rest) => (.array vs, rest)
  | depth + 1, '\x7b' :: cs =>
    match skipBlanks isBlank cs with
    | '\x7d' :: rest => some (.object [], rest)
    | _ =>
      (readEntries (readField (readValue depth)) '\x7d' cs.length cs).map fun (fs, rest) =>
        (.object fs, rest)
  | _, cs => readNumber cs

/-- Reads a text that holds one value. -/
def read? (text : String) : Option Value :=
  match readValue nestingLimit (skipBlanks isBlank text.toList) with
  | some (v, rest) => if (skipBlanks isBlank rest).isEmpty then some v else none
  | none => none

end ClassGauge.Json
