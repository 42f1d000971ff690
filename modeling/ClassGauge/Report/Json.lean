import ClassGauge.Json.Read
import ClassGauge.Record

/-! # Records as JSON

The text of a list of records is one JSON array, indented by two blanks, with the keys of each record
in a fixed order and a line feed at the end. `Record.readAll?` reads such a text back: the keys of a
record may stand in any order there and further keys are passed over, but each has to be there, and
once only. A record may also be an array there, of its values in order.
-/

namespace ClassGauge.Record

/-! ## Writing -/

/-- The keys of a record and their values as they are written, in order. -/
def writtenFields (r : Record) : List (String × String) :=
  [("className", Json.quote r.className), ("filePath", Json.quote r.filePath)] ++
    Metric.all.map fun m => (m.key, toString (m.value r))

/-- One record as an object inside the array. -/
def writeObject (r : Record) : String :=
  let lines := r.writtenFields.map fun (key, value) =>
    "    " ++ Json.quote key ++ ": " ++ value
  "  \x7b\n" ++ ",\n".intercalate lines ++ "\n  \x7d"

/-- The text of a list of records. -/
def writeAll (records : List Record) : String :=
  if records.isEmpty then "[]\n"
  else "[\n" ++ ",\n".intercalate (records.map writeObject) ++ "\n]\n"

/-! ## Reading -/

/-- The value of a key that occurs once. -/
def single? (fields : List (String × Json.Value)) (key : String) : Option Json.Value :=
  match fields.filter (·.1 = key) with
  | [(_, v)] => some v
  | _ => none

def textField? (fields : List (String × Json.Value)) (key : String) : Option String :=
  match single? fields key with
  | some (.string s) => some s
  | _ => none

/-- The numbers of 64 bits are those below this one. -/
def numberLimit : Nat := Nat.pow 2 64

/-- The number of 64 bits that a value is. -/
def number? : Json.Value → Option Nat
  | .natural n => if n < numberLimit then some n else none
  | _ => none

def numberField? (fields : List (String × Json.Value)) (key : String) : Option Nat :=
  (single? fields key).bind number?

/-- The record with the given texts, and a number for each metric. -/
def ofNumbers (className filePath : String) (numbers : List (Metric × Nat)) : Record :=
  ofValues className filePath fun m => (numbers.lookup m).getD 0

/-- The record that a value describes: an object with the keys of a record, or an array of all its
values in order. -/
def ofJson? : Json.Value → Option Record
  | .object fields => do
    let className ← textField? fields "className"
    let filePath ← textField? fields "filePath"
    let numbers ← Metric.all.mapM fun m => (numberField? fields m.key).map (m, ·)
    return ofNumbers className filePath numbers
  | .array (.string className :: .string filePath :: items) =>
    if items.length = Metric.all.length then
      (items.mapM number?).map fun numbers =>
        ofNumbers className filePath (Metric.all.zip numbers)
    else none
  | _ => none

/-- The records in a text. -/
def readAll? (text : String) : Option (List Record) :=
  match Json.read? text with
  | some (.array items) => items.mapM ofJson?
  | _ => none

end ClassGauge.Record
