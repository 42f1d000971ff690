/-! # Words of a text

A word is a longest run of ASCII letters, ASCII digits and underscores; every other character
separates. `uniqueWords` counts the different words of a text, capitals told apart from small
letters.
-/

namespace ClassGauge

/-- Whether a character can stand in a word. -/
def isWordChar (c : Char) : Bool :=
  c.isAlphanum || c = '_'

/-- Adds a finished run, held back to front, to the words found so far. -/
def closeRun (run : List Char) (found : List String) : List String :=
  if run.isEmpty then found else String.ofList run.reverse :: found

/-- Reads on through a text behind the unfinished `run` and adds the words met to `found`. -/
def scanWords (run : List Char) (found : List String) : List Char → List String
  | [] => closeRun run found
  | c :: cs =>
    if isWordChar c then scanWords (c :: run) found cs else scanWords [] (closeRun run found) cs

/-- The words of a text, the last one first. -/
def words (text : String) : List String :=
  scanWords [] [] text.toList

/-- The number of different words of a text. -/
def uniqueWords (text : String) : Nat :=
  (words text).eraseDups.length

end ClassGauge
