/-! # Glob patterns

A pattern is a list of tokens, read from a text from left to right:

* `?` stands for any one character and `*` for any run of characters, slashes included;
* `**` as a whole path component, with the slash behind it, stands for any number of components;
* `[abx-z]` stands for one of the listed characters or ranges and `[!abx-z]` for any other
  character; the first character behind `[` or `[!` belongs to the set even if it is `]`;
* everything else stands for itself.

`Glob.compile` reads a pattern or says where and why the text is none. Positions count characters
from zero.
-/

namespace ClassGauge.Glob

/-- Part of a set of characters: all from `first` to `last`. -/
structure CharRange where
  first : Char
  last : Char
  deriving DecidableEq, Repr

def CharRange.contains (r : CharRange) (c : Char) : Bool :=
  r.first ≤ c && c ≤ r.last

/-- One token of a pattern. -/
inductive Token where
  | literal (c : Char)
  | anyChar
  /-- Any run of characters. -/
  | anySequence
  /-- Nothing, or a run of characters that ends with a slash. -/
  | anyComponents
  /-- One character of a set, or with `negated` one outside it. -/
  | oneOf (negated : Bool) (ranges : List CharRange)
  deriving DecidableEq, Repr

/-- Why a text is no pattern. -/
inductive Fault where
  /-- Three stars or more in a row. -/
  | tooManyStars
  /-- Two stars that do not stand alone between slashes. -/
  | notWholeComponent
  /-- A bracket that opens no set. -/
  | invalidRange
  deriving DecidableEq, Repr

def Fault.message : Fault → String
  | .tooManyStars => "wildcards are either regular `*` or recursive `**`"
  | .notWholeComponent => "recursive wildcards must form a single path component"
  | .invalidRange => "invalid range pattern"

/-- A fault and the position at which it was found. -/
structure SyntaxError where
  position : Nat
  fault : Fault
  deriving DecidableEq, Repr

def SyntaxError.message (e : SyntaxError) : String :=
  "Pattern syntax error near position " ++ toString e.position ++ ": " ++ e.fault.message

/-- The ranges that the text of a set lists: `x-y` is a range, any other character stands alone. -/
def rangesOf : List Char → List CharRange
  | [] => []
  | first :: '-' :: last :: cs => ⟨first, last⟩ :: rangesOf cs
  | c :: cs => ⟨c, c⟩ :: rangesOf cs

/-- Adds a token for `**` to tokens that are held last to first. One that follows another adds
nothing, unless that one opens the pattern. -/
def pushComponents : List Token → List Token
  | .anyComponents :: t :: tokens => .anyComponents :: t :: tokens
  | tokens => .anyComponents :: tokens

/-- What the characters just read have begun. -/
inductive Begun where
  | nothing
  /-- One star; the flag says whether `**` may stand here. -/
  | star (free : Bool)
  /-- Two stars. -/
  | twoStars (free : Bool)
  /-- A bracket at a position. -/
  | bracket (position : Nat)
  /-- A bracket at a position and an exclamation mark. -/
  | negatedBracket (position : Nat)
  /-- A set that began at a position, its characters held last to first. -/
  | set (position : Nat) (negated : Bool) (members : List Char)
  deriving DecidableEq, Repr

/-- Reads one character outside sets and runs of stars. `free` says whether `**` may stand here:
at the start of the pattern or behind a slash. -/
def readPlain (tokens : List Token) (position : Nat) (free : Bool) (c : Char) :
    List Token × Begun :=
  if c = '?' then (.anyChar :: tokens, .nothing)
  else if c = '*' then (tokens, .star free)
  else if c = '[' then (tokens, .bracket position)
  else (.literal c :: tokens, .nothing)

/-- Reads the rest of a pattern at `position`, with the tokens so far held last to first. -/
def compileFrom (tokens : List Token) (position : Nat) (free : Bool) (begun : Begun) :
    List Char → Except SyntaxError (List Token)
  | [] =>
    match begun with
    | .nothing => .ok tokens.reverse
    | .star _ => .ok (Token.anySequence :: tokens).reverse
    | .twoStars true => .ok (pushComponents tokens).reverse
    | .twoStars false => .error ⟨position - 3, .notWholeComponent⟩
    | .bracket start => .error ⟨start, .invalidRange⟩
    | .negatedBracket start => .error ⟨start, .invalidRange⟩
    | .set start _ _ => .error ⟨start, .invalidRange⟩
  | c :: cs =>
    match begun with
    | .nothing =>
      let (tokens, begun) := readPlain tokens position free c
      compileFrom tokens (position + 1) (c = '/') begun cs
    | .star free =>
      if c = '*' then compileFrom tokens (position + 1) false (.twoStars free) cs
      else
        let (tokens, begun) := readPlain (.anySequence :: tokens) position false c
        compileFrom tokens (position + 1) (c = '/') begun cs
    | .twoStars free =>
      if c = '*' then .error ⟨position, .tooManyStars⟩
      else if !free then .error ⟨position - 3, .notWholeComponent⟩
      else if c = '/' then compileFrom (pushComponents tokens) (position + 1) true .nothing cs
      else .error ⟨position, .notWholeComponent⟩
    | .bracket start =>
      if c = '!' then compileFrom tokens (position + 1) false (.negatedBracket start) cs
      else compileFrom tokens (position + 1) false (.set start false [c]) cs
    | .negatedBracket start =>
      compileFrom tokens (position + 1) false (.set start true [c]) cs
    | .set start negated members =>
      if c = ']' then
        compileFrom (.oneOf negated (rangesOf members.reverse) :: tokens) (position + 1) false
          .nothing cs
      else compileFrom tokens (position + 1) false (.set start negated (c :: members)) cs

/-- Reads a pattern. -/
def compile (text : String) : Except SyntaxError (List Token) :=
  compileFrom [] 0 true .nothing text.toList

end ClassGauge.Glob
