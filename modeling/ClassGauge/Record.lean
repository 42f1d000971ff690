import ClassGauge.Measure.Cohesion
import ClassGauge.Measure.Complexity
import ClassGauge.Measure.Coupling
import ClassGauge.Measure.Inheritance
import ClassGauge.Measure.Tally
import ClassGauge.Measure.Words

/-! # Metric records

A record holds every metric of one class. `Record.measure` fills one in, the number of subclasses
apart, which is only known once all classes are.
-/

namespace ClassGauge

/-- All metrics of one class. -/
structure Record where
  className : String
  filePath : String
  /-- The lines of the file that declares the class. -/
  loc : Nat
  cbo : Nat
  wmc : Nat
  dit : Nat
  rfc : Nat
  lcom : Nat
  totalMethods : Nat
  totalFields : Nat
  /-- The number of direct subclasses. -/
  nosi : Nat
  returnQty : Nat
  loopQty : Nat
  comparisonsQty : Nat
  tryCatchQty : Nat
  parenthesizedExpsQty : Nat
  stringLiteralsQty : Nat
  numbersQty : Nat
  assignmentsQty : Nat
  mathOperationsQty : Nat
  variablesQty : Nat
  maxNestedBlocks : Nat
  uniqueWordsQty : Nat
  deriving DecidableEq, Repr

/-- The metrics of a record, in the order in which it lists them. -/
inductive Metric where
  | loc
  | cbo
  | wmc
  | dit
  | rfc
  | lcom
  | totalMethods
  | totalFields
  | nosi
  | returnQty
  | loopQty
  | comparisonsQty
  | tryCatchQty
  | parenthesizedExpsQty
  | stringLiteralsQty
  | numbersQty
  | assignmentsQty
  | mathOperationsQty
  | variablesQty
  | maxNestedBlocks
  | uniqueWordsQty
  deriving DecidableEq, Repr

namespace Metric

def all : List Metric :=
  [.loc, .cbo, .wmc, .dit, .rfc, .lcom, .totalMethods, .totalFields, .nosi, .returnQty, .loopQty,
    .comparisonsQty, .tryCatchQty, .parenthesizedExpsQty, .stringLiteralsQty, .numbersQty,
    .assignmentsQty, .mathOperationsQty, .variablesQty, .maxNestedBlocks, .uniqueWordsQty]

theorem mem_all (m : Metric) : m ∈ all := by
  cases m <;> decide

def key : Metric → String
  | .loc => "loc"
  | .cbo => "cbo"
  | .wmc => "wmc"
  | .dit => "dit"
  | .rfc => "rfc"
  | .lcom => "lcom"
  | .totalMethods => "totalMethods"
  | .totalFields => "totalFields"
  | .nosi => "nosi"
  | .returnQty => "returnQty"
  | .loopQty => "loopQty"
  | .comparisonsQty => "comparisonsQty"
  | .tryCatchQty => "tryCatchQty"
  | .parenthesizedExpsQty => "parenthesizedExpsQty"
  | .stringLiteralsQty => "stringLiteralsQty"
  | .numbersQty => "numbersQty"
  | .assignmentsQty => "assignmentsQty"
  | .mathOperationsQty => "mathOperationsQty"
  | .variablesQty => "variablesQty"
  | .maxNestedBlocks => "maxNestedBlocks"
  | .uniqueWordsQty => "uniqueWordsQty"

def ofKey? (k : String) : Option Metric :=
  all.find? (·.key = k)

def value : Metric → Record → Nat
  | .loc => (·.loc)
  | .cbo => (·.cbo)
  | .wmc => (·.wmc)
  | .dit => (·.dit)
  | .rfc => (·.rfc)
  | .lcom => (·.lcom)
  | .totalMethods => (·.totalMethods)
  | .totalFields => (·.totalFields)
  | .nosi => (·.nosi)
  | .returnQty => (·.returnQty)
  | .loopQty => (·.loopQty)
  | .comparisonsQty => (·.comparisonsQty)
  | .tryCatchQty => (·.tryCatchQty)
  | .parenthesizedExpsQty => (·.parenthesizedExpsQty)
  | .stringLiteralsQty => (·.stringLiteralsQty)
  | .numbersQty => (·.numbersQty)
  | .assignmentsQty => (·.assignmentsQty)
  | .mathOperationsQty => (·.mathOperationsQty)
  | .variablesQty => (·.variablesQty)
  | .maxNestedBlocks => (·.maxNestedBlocks)
  | .uniqueWordsQty => (·.uniqueWordsQty)

end Metric

namespace Record

/-- The record with the given texts and a value for each metric. -/
def ofValues (className filePath : String) (v : Metric → Nat) : Record where
  className := className
  filePath := filePath
  loc := v .loc
  cbo := v .cbo
  wmc := v .wmc
  dit := v .dit
  rfc := v .rfc
  lcom := v .lcom
  totalMethods := v .totalMethods
  totalFields := v .totalFields
  nosi := v .nosi
  returnQty := v .returnQty
  loopQty := v .loopQty
  comparisonsQty := v .comparisonsQty
  tryCatchQty := v .tryCatchQty
  parenthesizedExpsQty := v .parenthesizedExpsQty
  stringLiteralsQty := v .stringLiteralsQty
  numbersQty := v .numbersQty
  assignmentsQty := v .assignmentsQty
  mathOperationsQty := v .mathOperationsQty
  variablesQty := v .variablesQty
  maxNestedBlocks := v .maxNestedBlocks
  uniqueWordsQty := v .uniqueWordsQty

/-- A record is its two texts and the values of its metrics. -/
theorem ofValues_value (r : Record) :
    ofValues r.className r.filePath (Metric.value · r) = r := rfl

theorem value_ofValues (className filePath : String) (v : Metric → Nat) (m : Metric) :
    m.value (ofValues className filePath v) = v m := by
  cases m <;> rfl

/-- The record of a class, with no subclass counted yet. -/
def measure (r : Registry) (u : ClassUnit) : Except CyclicInheritance Record := do
  let dit ← depthOfInheritance r u
  let tally := Tally.ofNode u.node
  return {
    className := u.name
    filePath := u.file.path
    loc := u.file.lineCount
    cbo := couplingBetweenObjects u
    wmc := weightedMethods u
    dit := dit
    rfc := responseForClass u
    lcom := lackOfCohesion u
    totalMethods := u.methods.length
    totalFields := ClassGauge.totalFields u
    nosi := 0
    returnQty := tally.returns
    loopQty := tally.loops
    comparisonsQty := tally.comparisons
    tryCatchQty := tally.tryCatches
    parenthesizedExpsQty := tally.parenthesized
    stringLiteralsQty := tally.stringLiterals
    numbersQty := tally.numbers
    assignmentsQty := tally.assignments
    mathOperationsQty := tally.mathOperations
    variablesQty := u.fields.length
    maxNestedBlocks := ClassGauge.maxNestedBlocks u
    uniqueWordsQty := uniqueWords u.node.tree.text }

/-- The record with the number of subclasses that the registry has for its class name. -/
def withSubclasses (r : Registry) (record : Record) : Record :=
  { record with nosi := r.subclassCount record.className }

end Record

end ClassGauge
