import ClassGauge.Text

/-! # The small parts of a TOML document

Blanks, line ends and comments, strings of all four forms, and keys.
-/

namespace ClassGauge.Toml

/-! ## Blanks and comments -/

/-- Whether a character is a blank within a line. -/
def isBlank (c : Char) : Bool :=
  c = ' ' || c = '\t'

def lineEnd? : List Char → Option (List Char)
  | '\n' :: cs => some cs
  | '\r' :: '\n' :: cs => some cs
  | _ => none

/-- Whether a character can stand in a comment or, quotes and backslashes apart, in a string of one
line. -/
def isPrintable (c : Char) : Bool :=
  c = '\t' || (0x20 ≤ c.toNat && c.toNat ≠ 0x7f)

/-- Drops a comment, if there is one, up to the end of its line. -/
def skipComment : List Char → List Char
  | '#' :: cs => cs.dropWhile isPrintable
  | cs => cs

/-- Takes the end of a line that holds nothing more but blanks and a comment. -/
def restOfLine? (cs : List Char) : Option (List Char) :=
  match skipComment (skipBlanks isBlank cs) with
  | [] => some []
  | rest => lineEnd? rest

/-- Drops blanks, line ends and comments, `fuel` bounding their number. A comment has to be followed
by a line end. -/
def skipLines : (fuel : Nat) → List Char → Option (List Char)
  | 0, cs => some cs
  | fuel + 1, cs =>
    match skipBlanks isBlank cs with
    | '#' :: rest =>
      match lineEnd? (skipComment ('#' :: rest)) with
      | some rest => skipLines fuel rest
      | none => none
    | rest =>
      match lineEnd? rest with
      | some rest => skipLines fuel rest
      | none => some rest

/-! ## Strings -/

/-- The character whose code the hexadecimal digits `digits` write. -/
def charOfHex? (digits : List Char) : Option Char :=
  (numberOfDigits? 16 digits).bind scalar?

/-- The rest of a string of one line behind its opening quote; `acc` holds what was read, last to
first. -/
def basicString (acc : List Char) : Reader String
  | [] => none
  | '"' :: cs => some (String.ofList acc.reverse, cs)
  | '\\' :: 'u' :: a :: b :: c :: d :: cs =>
    match charOfHex? [a, b, c, d] with
    | some e => basicString (e :: acc) cs
    | none => none
  | '\\' :: 'U' :: a :: b :: c :: d :: e :: f :: g :: h :: cs =>
    match charOfHex? [a, b, c, d, e, f, g, h] with
    | some e => basicString (e :: acc) cs
    | none => none
  | '\\' :: c :: cs =>
    match simpleEscape? c with
    | some e => basicString (e :: acc) cs
    | none => none
  | c :: cs => if isPrintable c then basicString (c :: acc) cs else none

/-- The rest of a string of several lines behind its opening quotes. Quotes may stand in it, up to
two of them right before the closing ones. A backslash at the end of a line drops what follows up to
the next character that is no blank and no line end; `skipping` says that this is going on. -/
def multilineString (skipping : Bool) (acc : List Char) : Reader String
  | '"' :: '"' :: '"' :: '"' :: '"' :: cs => some (String.ofList ('"' :: '"' :: acc).reverse, cs)
  | '"' :: '"' :: '"' :: '"' :: cs => some (String.ofList ('"' :: acc).reverse, cs)
  | '"' :: '"' :: '"' :: cs => some (String.ofList acc.reverse, cs)
  | '\\' :: 'u' :: a :: b :: c :: d :: cs =>
    match charOfHex? [a, b, c, d] with
    | some e => multilineString false (e :: acc) cs
    | none => none
  | '\\' :: 'U' :: a :: b :: c :: d :: e :: f :: g :: h :: cs =>
    match charOfHex? [a, b, c, d, e, f, g, h] with
    | some e => multilineString false (e :: acc) cs
    | none => none
  | '\\' :: c :: cs =>
    if (lineEnd? (skipBlanks isBlank (c :: cs))).isSome then multilineString true acc (c :: cs)
    else
      match simpleEscape? c with
      | some e => multilineString false (e :: acc) cs
      | none => none
  | '\r' :: '\n' :: cs =>
    if skipping then multilineString true acc cs else multilineString false ('\n' :: acc) cs
  | c :: cs =>
    if skipping && (isBlank c || c = '\n') then multilineString true acc cs
    else if isPrintable c || c = '\n' then multilineString false (c :: acc) cs
    else none
  | [] => none

/-- The rest of a literal string of one line behind its opening apostrophe. -/
def literalString (acc : List Char) : Reader String
  | [] => none
  | '\'' :: cs => some (String.ofList acc.reverse, cs)
  | c :: cs => if isPrintable c then literalString (c :: acc) cs else none

/-- The rest of a literal string of several lines behind its opening apostrophes. -/
def multilineLiteral (acc : List Char) : Reader String
  | '\'' :: '\'' :: '\'' :: '\'' :: '\'' :: cs =>
    some (String.ofList ('\'' :: '\'' :: acc).reverse, cs)
  | '\'' :: '\'' :: '\'' :: '\'' :: cs => some (String.ofList ('\'' :: acc).reverse, cs)
  | '\'' :: '\'' :: '\'' :: cs => some (String.ofList acc.reverse, cs)
  | '\r' :: '\n' :: cs => multilineLiteral ('\n' :: acc) cs
  | c :: cs => if isPrintable c || c = '\n' then multilineLiteral (c :: acc) cs else none
  | [] => none

/-- A line end right behind the opening quotes of a string of several lines is not part of it. -/
def dropLineEnd (cs : List Char) : List Char :=
  (lineEnd? cs).getD cs

def readString : Reader String
  | '"' :: '"' :: '"' :: cs => multilineString false [] (dropLineEnd cs)
  | '"' :: cs => basicString [] cs
  | '\'' :: '\'' :: '\'' :: cs => multilineLiteral [] (dropLineEnd cs)
  | '\'' :: cs => literalString [] cs
  | _ => none

/-! ## Keys -/

/-- The number of parts that a key must stay below. -/
def keyPartLimit : Nat := 80

/-- Whether a character can stand in a key without quotes. -/
def isBareKeyChar (c : Char) : Bool :=
  c.isAlphanum || c = '-' || c = '_'

def keyPart : Reader String
  | '"' :: cs => basicString [] cs
  | '\'' :: cs => literalString [] cs
  | cs =>
    match cs.span isBareKeyChar with
    | ([], _) => none
    | (key, rest) => some (String.ofList key, rest)

/-- The parts of a key, with dots between them and blanks around them; `fuel` bounds their
number. -/
def keyParts : (fuel : Nat) → Reader (List String)
  | 0, _ => none
  | fuel + 1, cs =>
    match keyPart (skipBlanks isBlank cs) with
    | none => none
    | some (part, rest) =>
      match skipBlanks isBlank rest with
      | '.' :: rest => (keyParts fuel rest).map fun (parts, rest) => (part :: parts, rest)
      | rest => some ([part], rest)

/-- A key: its parts but the last, and the last. -/
def readKey (cs : List Char) : Option ((List String × String) × List Char) :=
  match keyParts (keyPartLimit - 1) cs with
  | some (parts, rest) => parts.getLast?.map fun last => ((parts.dropLast, last), rest)
  | none => none

end ClassGauge.Toml
