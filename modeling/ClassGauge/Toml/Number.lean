import ClassGauge.Text

/-! # TOML numbers and dates

Integers in four bases, floats, and dates and times. Underscores may stand between digits. An
integer has to fit into 64 bits with a sign, a positive float must not be too large for a double,
and a date has to exist in the calendar.
-/

namespace ClassGauge.Toml

/-! ## Digits -/

/-- More digits of a number, `value` and `count` being its value and length so far. An underscore
has to be followed by a digit. -/
def moreDigits (base value count : Nat) : Reader (Nat × Nat)
  | '_' :: c :: cs =>
    match digitValue? base c with
    | some d => moreDigits base (base * value + d) (count + 1) cs
    | none => none
  | ['_'] => none
  | c :: cs =>
    match digitValue? base c with
    | some d => moreDigits base (base * value + d) (count + 1) cs
    | none => some ((value, count), c :: cs)
  | [] => some ((value, count), [])

/-- One digit or more: their value and their number. -/
def digits (base : Nat) : Reader (Nat × Nat)
  | c :: cs =>
    match digitValue? base c with
    | some d => moreDigits base d 1 cs
    | none => none
  | [] => none

/-- A decimal number without a sign: zero, or digits of which the first is not zero. -/
def decimal : Reader (Nat × Nat)
  | '0' :: cs => some ((0, 1), cs)
  | cs => digits 10 cs

/-- A sign, if there is one: whether it is a minus. -/
def sign : List Char → Bool × List Char
  | '+' :: cs => (false, cs)
  | '-' :: cs => (true, cs)
  | cs => (false, cs)

/-! ## Integers -/

/-- `n` as an integer of 64 bits, negated if `negative`. -/
def int64? (negative : Bool) (n : Nat) : Option Int :=
  let bound := Nat.pow 2 63
  if negative then (if n ≤ bound then some (-(n : Int)) else none)
  else if n < bound then some n else none

def readInteger : Reader Int
  | '0' :: 'x' :: cs => unsigned 16 cs
  | '0' :: 'o' :: cs => unsigned 8 cs
  | '0' :: 'b' :: cs => unsigned 2 cs
  | cs =>
    let (negative, rest) := sign cs
    match decimal rest with
    | some ((n, _), rest) => (int64? negative n).map (·, rest)
    | none => none
where
  /-- An integer in another base, behind the letter for it. -/
  unsigned (base : Nat) (cs : List Char) : Option (Int × List Char) :=
    match digits base cs with
    | some ((n, _), rest) => (int64? false n).map (·, rest)
    | none => none

/-! ## Floats -/

/-- Whether `m * 10 ^ e` is so large that the nearest double is infinite; `m` has `length` digits
at most. -/
def exceedsDouble (m length : Nat) (e : Int) : Bool :=
  if m = 0 ∨ length + e < 309 then false
  else
    -- The first number that is no longer rounded to a finite double.
    let limit := Nat.pow 2 1024 - Nat.pow 2 970
    if 400 < e then true
    else if 0 ≤ e then limit ≤ m * Nat.pow 10 e.toNat
    else limit * Nat.pow 10 (-e).toNat ≤ m

/-- The exponent of a float behind its letter. -/
def exponent (cs : List Char) : Option (Int × List Char) :=
  let (negative, rest) := sign cs
  (digits 10 rest).map fun ((n, _), rest) => (if negative then -(n : Int) else n, rest)

def exponent? : List Char → Option (Int × List Char)
  | 'e' :: cs | 'E' :: cs => exponent cs
  | cs => some (0, cs)

/-- The text between two points of a document. -/
def consumed (before after : List Char) : String :=
  String.ofList (before.take (before.length - after.length))

/-- A float that is written with digits. -/
def decimalFloat (cs : List Char) : Option (String × List Char) := do
  let (negative, rest) := sign cs
  let ((whole, length), rest) ← decimal rest
  let ((m, length, places), rest) ←
    match rest with
    | '.' :: rest => do
      let ((part, places), rest) ← digits 10 rest
      pure ((whole * Nat.pow 10 places + part, length + places, places), rest)
    | 'e' :: _ | 'E' :: _ => pure ((whole, length, 0), rest)
    | _ => none
  let (e, rest) ← exponent? rest
  if !negative && exceedsDouble m length (e - places) then none
  else some (consumed cs rest, rest)

/-- Infinity or no number, with or without a sign. -/
def specialFloat (cs : List Char) : Option (String × List Char) :=
  match (sign cs).2 with
  | 'i' :: 'n' :: 'f' :: rest => some (consumed cs rest, rest)
  | 'n' :: 'a' :: 'n' :: rest => some (consumed cs rest, rest)
  | _ => none

def readFloat (cs : List Char) : Option (String × List Char) :=
  (decimalFloat cs).or (specialFloat cs)

/-! ## Dates and times -/

/-- A number of exactly `count` digits. -/
def fixedDigits (count : Nat) (cs : List Char) : Option (Nat × List Char) := do
  let head := cs.take count
  let n ← numberOfDigits? 10 head
  if head.length = count then some (n, cs.drop count) else none

/-- A number of two digits between two bounds. -/
def twoDigits (low high : Nat) (cs : List Char) : Option (Nat × List Char) := do
  let (n, rest) ← fixedDigits 2 cs
  if low ≤ n ∧ n ≤ high then some (n, rest) else none

/-- Takes one given character. -/
def expect (c : Char) : List Char → Option (List Char)
  | d :: cs => if d = c then some cs else none
  | [] => none

def daysInMonth (year month : Nat) : Nat :=
  if month = 2 then
    if year % 4 = 0 ∧ (year % 100 ≠ 0 ∨ year % 400 = 0) then 29 else 28
  else if month ∈ [4, 6, 9, 11] then 30
  else 31

def skipDate (cs : List Char) : Option (List Char) := do
  let (year, cs) ← fixedDigits 4 cs
  let (month, cs) ← twoDigits 1 12 (← expect '-' cs)
  let (_, cs) ← twoDigits 1 (daysInMonth year month) (← expect '-' cs)
  return cs

/-- Takes a fraction of a second, if there is one. -/
def skipFraction : List Char → List Char
  | '.' :: c :: cs => if c.isDigit then cs.dropWhile Char.isDigit else '.' :: c :: cs
  | cs => cs

/-- Takes a time of day; a minute may have a leap second. -/
def skipTime (cs : List Char) : Option (List Char) := do
  let (_, cs) ← twoDigits 0 23 cs
  let (_, cs) ← twoDigits 0 59 (← expect ':' cs)
  let (_, cs) ← twoDigits 0 60 (← expect ':' cs)
  return skipFraction cs

/-- Takes an offset in hours and minutes. -/
def skipOffset (cs : List Char) : Option (List Char) := do
  let (_, cs) ← twoDigits 0 23 cs
  let (_, cs) ← twoDigits 0 59 (← expect ':' cs)
  return cs

/-- Takes the offset of a time, if there is one. -/
def skipZone : List Char → List Char
  | 'Z' :: cs | 'z' :: cs => cs
  | '+' :: cs => (skipOffset cs).getD ('+' :: cs)
  | '-' :: cs => (skipOffset cs).getD ('-' :: cs)
  | cs => cs

/-- Takes the time that follows a date, if there is one. -/
def skipTimeOfDate : List Char → List Char
  | c :: cs =>
    if c = 'T' || c = 't' || c = ' ' then ((skipTime cs).map skipZone).getD (c :: cs) else c :: cs
  | [] => []

/-- A date, a time, or a date with a time. -/
def readDatetime (cs : List Char) : Option (String × List Char) :=
  match ((skipDate cs).map skipTimeOfDate).or (skipTime cs) with
  | some rest => some (consumed cs rest, rest)
  | none => none

end ClassGauge.Toml
