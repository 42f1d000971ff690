/-! # Command-line options

The arguments of the program, read from left to right: `Options.parse` stops at the first argument
that is in error or that asks for help or for the version.
-/

namespace ClassGauge.CommandLine

/-- Options without a value. -/
inductive Flag where
  | summary
  | stdout
  | verbose
  | timing
  | keepMalformed
  deriving DecidableEq, Repr

/-- Options with a value. -/
inductive Valued where
  | output
  | included
  | excluded
  | config
  | jobs
  deriving DecidableEq, Repr

/-- What an option on the command line means. -/
inductive Switch where
  | flag (f : Flag)
  | valued (v : Valued)
  | help
  | version
  deriving DecidableEq, Repr

namespace Switch

/-- The option of a long name. -/
def ofLong? : String → Option Switch
  | "output" => some (.valued .output)
  | "include" => some (.valued .included)
  | "exclude" => some (.valued .excluded)
  | "summary" => some (.flag .summary)
  | "stdout" => some (.flag .stdout)
  | "config" => some (.valued .config)
  | "verbose" => some (.flag .verbose)
  | "timing" => some (.flag .timing)
  | "jobs" => some (.valued .jobs)
  | "keep-malformed" => some (.flag .keepMalformed)
  | "help" => some .help
  | "version" => some .version
  | _ => none

/-- The option of a letter. -/
def ofShort? : Char → Option Switch
  | 'o' => some (.valued .output)
  | 's' => some (.flag .summary)
  | 'c' => some (.valued .config)
  | 'v' => some (.flag .verbose)
  | 'j' => some (.valued .jobs)
  | 'h' => some .help
  | 'V' => some .version
  | _ => none

end Switch

/-- What the arguments of a run say. -/
structure Options where
  /-- The project, if one is given. -/
  path : Option String
  output : Option String
  config : Option String
  /-- The number of threads to parse with. -/
  jobs : Option Nat
  included : List String
  excluded : List String
  /-- The options without a value that are given. -/
  flags : List Flag
  deriving DecidableEq, Repr

/-- What a command line asks for. -/
inductive Request where
  | run (o : Options)
  | help
  | version
  deriving DecidableEq, Repr

/-- What is wrong with a command line. -/
inductive UsageError where
  | unexpectedArgument (argument : String)
  /-- An option without its value, or one that must not be empty with an empty one. -/
  | missingValue (option : String)
  | unexpectedValue (option value : String)
  /-- Something is given twice that may be given once. -/
  | repeated (option : String)
  | invalidValue (option value : String)
  deriving DecidableEq, Repr

def UsageError.message : UsageError → String
  | .unexpectedArgument a => "unexpected argument '" ++ a ++ "' found"
  | .missingValue o => "a value is required for '" ++ o ++ "' but none was supplied"
  | .unexpectedValue o v =>
    "unexpected value '" ++ v ++ "' for '" ++ o ++ "' found; no more were expected"
  | .repeated o => "the argument '" ++ o ++ "' cannot be used multiple times"
  | .invalidValue o v => "invalid value '" ++ v ++ "' for '" ++ o ++ "'"

def Flag.usage : Flag → String
  | .summary => "--summary"
  | .stdout => "--stdout"
  | .verbose => "--verbose"
  | .timing => "--timing"
  | .keepMalformed => "--keep-malformed"

/-- How an option and its value are written in messages. -/
def Valued.usage : Valued → String
  | .output => "--output <OUTPUT>"
  | .included => "--include <GLOB>"
  | .excluded => "--exclude <GLOB>"
  | .config => "--config <CONFIG>"
  | .jobs => "--jobs <N>"

namespace Options

def none : Options := ⟨.none, .none, .none, .none, [], [], []⟩

/-- The project: the current directory if none is given. -/
def project (o : Options) : String :=
  o.path.getD "."

def has (o : Options) (f : Flag) : Bool :=
  o.flags.contains f

/-- A number that fits into 64 bits: digits, perhaps with a plus in front. -/
def number? (text : String) : Option Nat :=
  let digits := match text.toList with
    | '+' :: cs => cs
    | cs => cs
  if digits.isEmpty || !digits.all Char.isDigit then .none
  else
    let n := digits.foldl (fun n c => 10 * n + (c.toNat - 48)) 0
    if n < Nat.pow 2 64 then some n else .none

/-- Adds a flag, which may be given once. -/
def addFlag (o : Options) (f : Flag) : Except UsageError Options :=
  if o.has f then .error (.repeated f.usage) else .ok { o with flags := f :: o.flags }

/-- A path that may be given once and must not be empty. -/
def single (usage : String) (before : Option String) (value : String) :
    Except UsageError (Option String) :=
  if before.isSome then .error (.repeated usage)
  else if value.isEmpty then .error (.missingValue usage)
  else .ok (some value)

/-- Adds an option with its value. Patterns may be given again and again, all else once. -/
def addValue (o : Options) (v : Valued) (value : String) : Except UsageError Options :=
  match v with
  | .output => (single v.usage o.output value).map fun p => { o with output := p }
  | .config => (single v.usage o.config value).map fun p => { o with config := p }
  | .included => .ok { o with included := o.included ++ [value] }
  | .excluded => .ok { o with excluded := o.excluded ++ [value] }
  | .jobs =>
    if o.jobs.isSome then .error (.repeated v.usage)
    else
      match number? value with
      | some n => .ok { o with jobs := some n }
      | .none => .error (.invalidValue v.usage value)

/-- Adds an argument that is no option: the project, of which there is one. -/
def addPath (o : Options) (path : String) : Except UsageError Options :=
  if o.path.isSome then .error (.unexpectedArgument path)
  else (single "[PATH]" o.path path).map fun p => { o with path := p }

/-- How far the reading of a command line has come behind an argument. -/
inductive Progress where
  /-- All is well; with `pending`, the next argument is the value of that option. -/
  | more (o : Options) (pending : Option Valued)
  /-- Nothing behind this argument matters. -/
  | done (r : Request)

/-- Reads letters behind a single dash. The value of an option that has one may follow it at once,
with or without an equals sign. -/
def readLetters (argument : String) (o : Options) : List Char → Except UsageError Progress
  | [] => .ok (.more o .none)
  | c :: cs =>
    match Switch.ofShort? c with
    | .none => .error (.unexpectedArgument argument)
    | some .help => .ok (.done .help)
    | some .version => .ok (.done .version)
    | some (.flag f) =>
      match o.addFlag f with
      | .ok o => readLetters argument o cs
      | .error e => .error e
    | some (.valued v) =>
      match cs with
      | [] => .ok (.more o (some v))
      | '=' :: value => (o.addValue v (String.ofList value)).map (.more · .none)
      | value => (o.addValue v (String.ofList value)).map (.more · .none)

/-- Reads a long option; `text` is what stands behind the two dashes. -/
def readLong (argument : String) (o : Options) (text : List Char) : Except UsageError Progress :=
  let (name, rest) := text.span (· ≠ '=')
  let value? := rest.head?.map fun _ => String.ofList rest.tail
  match Switch.ofLong? (String.ofList name), value? with
  | .none, _ => .error (.unexpectedArgument argument)
  | some (.valued v), some value => (o.addValue v value).map (.more · .none)
  | some (.valued v), .none => .ok (.more o (some v))
  | some _, some value =>
    .error (.unexpectedValue (String.ofList ('-' :: '-' :: name)) value)
  | some (.flag f), .none => (o.addFlag f).map (.more · .none)
  | some .help, .none => .ok (.done .help)
  | some .version, .none => .ok (.done .version)

/-- Whether an argument is an option by its form: a dash with something behind it. -/
def looksLikeOption (argument : String) : Bool :=
  match argument.toList with
  | '-' :: _ :: _ => true
  | _ => false

def readArgument (o : Options) (argument : String) : Except UsageError Progress :=
  match argument.toList with
  | '-' :: '-' :: text => readLong argument o text
  | '-' :: c :: cs => readLetters argument o (c :: cs)
  | _ => (o.addPath argument).map (.more · .none)

/-- Reads arguments none of which is an option. -/
def readPaths (o : Options) : List String → Except UsageError Request
  | [] => .ok (.run o)
  | a :: rest =>
    match o.addPath a with
    | .ok o => readPaths o rest
    | .error e => .error e

/-- Reads arguments; the first may be the value of the option `pending`. Behind `--` there are no
options. -/
def readFrom (o : Options) (pending : Option Valued) : List String → Except UsageError Request
  | [] =>
    match pending with
    | some v => .error (.missingValue v.usage)
    | .none => .ok (.run o)
  | a :: rest =>
    match pending with
    | some v =>
      if looksLikeOption a then .error (.missingValue v.usage)
      else
        match o.addValue v a with
        | .ok o => readFrom o .none rest
        | .error e => .error e
    | .none =>
      if a = "--" then readPaths o rest
      else
        match readArgument o a with
        | .ok (.more o pending) => readFrom o pending rest
        | .ok (.done r) => .ok r
        | .error e => .error e

/-- Reads the arguments of the program. -/
def parse (arguments : List String) : Except UsageError Request :=
  readFrom none .none arguments

end Options

end ClassGauge.CommandLine
