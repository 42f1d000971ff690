import ClassGauge.Number.Digit

/-! # Texts

What the formats share that are read from the front of a text: readers, blanks, and characters that
are written as escapes or by their codes. Besides, texts without the white space around them.
-/

namespace ClassGauge

/-! ## Reading -/

/-- A reader takes something from the front of a text and leaves the rest, or finds nothing that it
could take. -/
abbrev Reader (α : Type) : Type := List Char → Option (α × List Char)

/-- Drops blanks. Which characters are blanks is up to the format. -/
def skipBlanks (isBlank : Char → Bool) (cs : List Char) : List Char :=
  cs.dropWhile isBlank

/-- The character that a backslash and one letter stand for. -/
def simpleEscape? : Char → Option Char
  | 'b' => some '\x08'
  | 't' => some '\t'
  | 'n' => some '\n'
  | 'f' => some '\x0c'
  | 'r' => some '\r'
  | '"' => some '"'
  | '\\' => some '\\'
  | _ => none

/-- The character with the code `n`; surrogates and codes beyond Unicode are none. -/
def scalar? (n : Nat) : Option Char :=
  if n.isValidChar then some (Char.ofNat n) else none

/-! ## White space -/

/-- Whether a character has the property `White_Space` of Unicode. -/
def isWhiteSpace (c : Char) : Bool :=
  let n := c.toNat
  9 ≤ n && n ≤ 13 || n = 0x20 || n = 0x85 || n = 0xa0 || n = 0x1680 || 0x2000 ≤ n && n ≤ 0x200a ||
    n = 0x2028 || n = 0x2029 || n = 0x202f || n = 0x205f || n = 0x3000

/-- A text without the white space in front of it and behind it. -/
def trim (text : String) : String :=
  let front := text.toList.dropWhile isWhiteSpace
  String.ofList (front.reverse.dropWhile isWhiteSpace).reverse

end ClassGauge
