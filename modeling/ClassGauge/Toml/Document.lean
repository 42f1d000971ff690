import ClassGauge.Toml.Lexeme
import ClassGauge.Toml.Number
import ClassGauge.Toml.Table

/-! # TOML documents

Values, which nest, and the lines of a document: comments, headers, and keys with values.
`Toml.read?` gives the entries of the table that a document describes.
-/

namespace ClassGauge.Toml

/-! ## Values -/

/-- How deep arrays and inline tables may be nested. -/
def nestingLimit : Nat := 79

/-- The items of an array behind its opening bracket or behind a comma, each read by `item`; `fuel`
bounds their number. A comma may stand behind the last item. -/
def arrayItems (item : Reader Value) : (fuel : Nat) → Reader (List Value)
  | 0, _ => none
  | fuel + 1, cs =>
    match skipLines cs.length cs with
    | none => none
    | some (']' :: rest) => some ([], rest)
    | some cs =>
      match item cs with
      | none => none
      | some (v, rest) =>
        match skipLines rest.length rest with
        | some (',' :: rest) => (arrayItems item fuel rest).map fun (vs, rest) => (v :: vs, rest)
        | some (']' :: rest) => some ([v], rest)
        | _ => none

/-- The pairs of an inline table behind its opening brace or behind a comma, each value read by
`item` and added to `t`; `fuel` bounds their number. -/
def inlinePairs (item : Reader Value) : (fuel : Nat) → (t : Draft) → Reader Draft
  | 0, _, _ => none
  | fuel + 1, t, cs =>
    match readKey cs with
    | some ((path, key), '=' :: rest) =>
      match item (skipBlanks isBlank rest) with
      | none => none
      | some (v, rest) =>
        match t.insertValue path key v with
        | none => none
        | some t =>
          match skipBlanks isBlank rest with
          | ',' :: rest => inlinePairs item fuel t rest
          | '}' :: rest => some (t, rest)
          | _ => none
    | _ => none

/-- An inline table behind its opening brace. -/
def inlineTable (item : Reader Value) (cs : List Char) : Option (Value × List Char) :=
  match skipBlanks isBlank cs with
  | '}' :: rest => some (.table [], rest)
  | _ =>
    (inlinePairs item cs.length (Draft.empty .explicit) cs).map fun (t, rest) =>
      (.table t.toEntries, rest)

/-- A date, a float or an integer: the first of them that the text starts with. -/
def readNumber (cs : List Char) : Option (Value × List Char) :=
  ((readDatetime cs).map fun (text, rest) => (.datetime text, rest)).or <|
    ((readFloat cs).map fun (text, rest) => (.float text, rest)).or <|
      (readInteger cs).map fun (n, rest) => (.integer n, rest)

/-- A value that holds no other values. -/
def readScalar : Reader Value
  | 't' :: 'r' :: 'u' :: 'e' :: rest => some (.boolean true, rest)
  | 'f' :: 'a' :: 'l' :: 's' :: 'e' :: rest => some (.boolean false, rest)
  | '"' :: cs => (readString ('"' :: cs)).map fun (s, rest) => (.string s, rest)
  | '\'' :: cs => (readString ('\'' :: cs)).map fun (s, rest) => (.string s, rest)
  | cs => readNumber cs

/-- A value in which arrays and inline tables are nested at most `depth` deep. -/
def readValue : (depth : Nat) → Reader Value
  | depth + 1, '[' :: cs =>
    (arrayItems (readValue depth) (cs.length + 1) cs).map fun (vs, rest) => (.array vs, rest)
  | depth + 1, '\x7b' :: cs => inlineTable (readValue depth) cs
  | _, cs => readScalar cs

/-! ## Lines -/

/-- A document under construction: its tables so far, and the header under which it stands. -/
structure Progress where
  root : Draft
  header : List String

/-- A table header behind its opening bracket. -/
def tableHeader (p : Progress) (cs : List Char) : Option (Progress × List Char) :=
  match readKey cs with
  | some ((path, key), ']' :: rest) => do
    let rest ← restOfLine? rest
    let root ← p.root.openTable path key
    return (⟨root, path ++ [key]⟩, rest)
  | _ => none

/-- The header of a table in an array behind its opening brackets. -/
def arrayHeader (p : Progress) (cs : List Char) : Option (Progress × List Char) :=
  match readKey cs with
  | some ((path, key), ']' :: ']' :: rest) => do
    let rest ← restOfLine? rest
    let root ← p.root.openArrayTable path key
    return (⟨root, path ++ [key]⟩, rest)
  | _ => none

/-- A key and its value, added to the table of the current header. -/
def keyValue (p : Progress) (cs : List Char) : Option (Progress × List Char) :=
  match readKey cs with
  | some ((path, key), '=' :: rest) => do
    let (v, rest) ← readValue nestingLimit (skipBlanks isBlank rest)
    let rest ← restOfLine? rest
    let root ← p.root.modifyAt .header p.header (Draft.insertValue path key v)
    return (⟨root, p.header⟩, rest)
  | _ => none

/-- One line, blanks in front of it dropped. -/
def readLine (p : Progress) : List Char → Option (Progress × List Char)
  | '#' :: cs => (restOfLine? ('#' :: cs)).map (p, ·)
  | '\n' :: cs => some (p, cs)
  | '\r' :: cs => (lineEnd? ('\r' :: cs)).map (p, ·)
  | '[' :: '[' :: cs => arrayHeader p cs
  | '[' :: cs => tableHeader p cs
  | cs => keyValue p cs

/-- The lines of a document, `fuel` bounding their number. -/
def readLines : (fuel : Nat) → Progress → List Char → Option Progress
  | 0, _, _ => none
  | fuel + 1, p, cs =>
    match skipBlanks isBlank cs with
    | [] => some p
    | cs =>
      match readLine p cs with
      | some (p, rest) => readLines fuel p rest
      | none => none

/-- Drops a byte order mark in front of a text. -/
def dropMark : List Char → List Char
  | c :: cs => if c.toNat = 0xfeff then cs else c :: cs
  | [] => []

/-- The entries of the table that a document describes, `none` if the text is no document. -/
def read? (text : String) : Option (List (String × Value)) :=
  let cs := dropMark text.toList
  (readLines (cs.length + 1) ⟨Draft.empty .explicit, []⟩ cs).map (·.root.toEntries)

end ClassGauge.Toml
