import ClassGauge.Record

/-! # Risks and strengths

A record is held against eight checks. A value inside the threshold of a check is a strength, one
outside is a risk. The check of variables compares their number with the lines of the file and can
be neither.
-/

namespace ClassGauge

/-- The checks. -/
inductive Check where
  | size
  | methodWeight
  | response
  | nesting
  | loops
  | comparisons
  | tryCatch
  | variables
  deriving DecidableEq, Repr

namespace Check

/-- All checks, in the order in which they are made. -/
def all : List Check :=
  [.size, .methodWeight, .response, .nesting, .loops, .comparisons, .tryCatch, .variables]

theorem mem_all (c : Check) : c ∈ all := by
  cases c <;> decide

theorem nodup_all : all.Nodup := by
  decide

/-- The largest value that is a strength; the check of variables has none. -/
def threshold? : Check → Option Nat
  | .size => some 150
  | .methodWeight => some 8
  | .response => some 15
  | .nesting => some 3
  | .loops => some 5
  | .comparisons => some 20
  | .tryCatch => some 3
  | .variables => none

def metric : Check → Metric
  | .size => .loc
  | .methodWeight => .wmc
  | .response => .rfc
  | .nesting => .maxNestedBlocks
  | .loops => .loopQty
  | .comparisons => .comparisonsQty
  | .tryCatch => .tryCatchQty
  | .variables => .variablesQty

end Check

/-- Whether `n` variables are favourable for a file of `loc` lines: at most one for ten lines is, more
than one for five is not, and anything between, or no variable at all, is neither. It is meant for
numbers whose tenfold stays below `2 ^ 64`, where the products are those of 64 bits as well. -/
def variableDensity (n loc : Nat) : Option Bool :=
  if n = 0 then none
  else if loc = 0 ∨ n * 10 ≤ loc then some true
  else if n * 5 > loc then some false
  else none

/-- The outcome of a check. -/
structure Finding where
  check : Check
  value : Nat
  /-- Whether the value is a strength. -/
  favourable : Bool
  deriving DecidableEq, Repr

namespace Finding

/-- The outcome of a check on a record, `none` if it is neither a risk nor a strength. -/
def ofCheck? (record : Record) (check : Check) : Option Finding :=
  let value := check.metric.value record
  match check.threshold? with
  | some threshold => some ⟨check, value, decide (value ≤ threshold)⟩
  | none => (variableDensity value record.loc).map (⟨check, value, ·⟩)

def description (f : Finding) : String :=
  let pick (good bad : String) : String := if f.favourable then good else bad
  let value := toString f.value
  match f.check with
  | .size => pick "Reasonable" "Excessive" ++ " file size (LOC: " ++ value ++ ")"
  | .methodWeight => pick "Good" "Poor" ++ " distribution of methods (" ++ value ++ ")"
  | .response => pick "Low" "High" ++ " complexity (RFC: " ++ value ++ ")"
  | .nesting =>
    pick "Well organized" "Deeply nested" ++ " code structure (depth: " ++ value ++ ")"
  | .loops => pick "Moderate use" "Excess" ++ " of loops (" ++ value ++ ")"
  | .comparisons =>
    pick "Reasonable number" "Excess" ++ " of conditions and comparisons (" ++ value ++ ")"
  | .tryCatch => pick "Appropriate use" "Excess" ++ " of try-catch blocks (" ++ value ++ ")"
  | .variables =>
    pick "Efficient use of variables" "Too many variables for the file size" ++
      " (" ++ value ++ ")"

end Finding

/-- The risks and strengths of one class, each in the order of the checks. -/
structure Assessment where
  risks : List Finding
  strengths : List Finding
  deriving DecidableEq, Repr

namespace Assessment

/-- Holds a record against all checks. -/
def ofRecord (record : Record) : Assessment :=
  let findings := Check.all.filterMap (Finding.ofCheck? record)
  { risks := findings.filter (!·.favourable), strengths := findings.filter (·.favourable) }

def risk (a : Assessment) : Nat := a.risks.length

def quality (a : Assessment) : Nat := a.strengths.length

def joinFindings (findings : List Finding) : String :=
  ", ".intercalate (findings.map Finding.description)

def riskComment (a : Assessment) : String :=
  if a.risks.isEmpty then "Low operational risk."
  else "Points of attention: " ++ joinFindings a.risks

def qualityComment (a : Assessment) : String :=
  if a.strengths.isEmpty then "Well organized and readable."
  else "Strengths: " ++ joinFindings a.strengths

end Assessment

end ClassGauge
