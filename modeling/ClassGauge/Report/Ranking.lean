import ClassGauge.Number.Binary64
import ClassGauge.Record

/-! # Reports

The outcome of a run: the records, how many files they come from and which files were left out.

* `Report.average`: the mean of a metric over all classes;
* `Report.topBy`: the classes with the highest values of a metric.
-/

namespace ClassGauge

/-- A file that was left out. -/
structure SkippedFile where
  path : String
  reason : String
  deriving DecidableEq, Repr

/-- The outcome of a run. -/
structure Report where
  /-- One record for each class. -/
  records : List Record
  /-- The number of files analysed. -/
  totalFiles : Nat
  skipped : List SkippedFile
  deriving DecidableEq, Repr

namespace Report

def classCount (r : Report) : Nat :=
  r.records.length

/-- The mean of a metric, `none` if there is no class. It is meant for values whose sum stays below
`2 ^ 64`; beyond that the sum has no bound here, whereas one in 64 bits overflows. -/
def average (r : Report) (metric : Record → Nat) : Option Binary64 :=
  if r.records.isEmpty then none
  else
    let total := (r.records.map metric).foldr (· + ·) 0
    some ((Binary64.ofNat total).div (Binary64.ofNat r.classCount))

/-- At most `limit` records with the highest values of a metric, the highest first and equal ones
in their order in the report. Records with the value zero are left out. -/
def topBy (r : Report) (metric : Record → Nat) (limit : Nat) : List Record :=
  ((r.records.filter (metric · > 0)).mergeSort fun a b => metric b ≤ metric a).take limit

end Report

end ClassGauge
