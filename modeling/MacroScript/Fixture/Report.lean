import MacroScript.Fixture.Suite
import MacroScript.Text.Whitespace

/-!
# Reports on suites

A report lists the results in order, then the counts, then the names of the
failed fixtures.  Failures are complaints and everything else is output.  When an
output differs from the expected one, the report sets their lines side by side.

The words that carry the verdict can be colored.
-/

namespace MacroScript.Fixture

/-! ## Colors -/

inductive Ink where
  | red
  | green
  | yellow
deriving DecidableEq, Repr

/-- The control sequence that begins a color. -/
def Ink.code : Ink → String
  | .red => "\x1b[31m"
  | .green => "\x1b[32m"
  | .yellow => "\x1b[33m"

def paint (colored : Bool) (ink : Ink) (text : String) : String :=
  if colored then ink.code ++ text ++ "\x1b[0m" else text

/-! ## Counts -/

/-- The number of results of each sort. -/
structure Tally where
  passed : Nat := 0
  failed : Nat := 0
  skipped : Nat := 0
deriving DecidableEq, Repr

namespace Tally

def total (tally : Tally) : Nat :=
  tally.passed + tally.failed + tally.skipped

def add (tally : Tally) : Outcome → Tally
  | .passed => { tally with passed := tally.passed + 1 }
  | .failed _ => { tally with failed := tally.failed + 1 }
  | .skipped _ => { tally with skipped := tally.skipped + 1 }

def ofResults (results : List Result) : Tally :=
  results.foldl (fun tally result => tally.add result.outcome) {}

end Tally

/-! ## Lines -/

inductive ReportLine where
  | output (text : String)
  | complaint (text : String)
deriving DecidableEq, Repr

/-- A verdict with the fixture it is about. -/
def heading (colored : Bool) (ink : Ink) (verdict : String) (result : Result) : String :=
  paint colored ink verdict ++ ": " ++ result.name ++ " [" ++ result.path ++ "]"

/-- Expected and actual lines side by side; the shorter list is filled up with
empty lines. -/
def compareLines (colored : Bool) : List String → List String → List String
  | [], [] => []
  | expected :: laterExpected, [] =>
    compareLine expected "" ++ compareLines colored laterExpected []
  | [], actual :: laterActual =>
    compareLine "" actual ++ compareLines colored [] laterActual
  | expected :: laterExpected, actual :: laterActual =>
    compareLine expected actual ++ compareLines colored laterExpected laterActual
where
  /-- One expected line and the actual one. -/
  compareLine (expected actual : String) : List String :=
    if expected = actual then ["    " ++ expected]
    else
      [ "  - expected: " ++ paint colored .green expected,
        "  + actual:   " ++ paint colored .red actual ]

def failureLines (colored : Bool) (failure : Failure) : List String :=
  match failure with
  | .otherOutput expected actual =>
    "  Error: output did not match expected" ::
      compareLines colored (Text.lines expected) (Text.lines actual)
  | _ =>
    ("  Error: " ++ failure.text) ::
      (failure.actual?.map fun actual =>
        "  Actual: " ++ String.ofList (Text.trimEnd actual.toList)).toList

def resultLines (colored : Bool) (result : Result) : List ReportLine :=
  match result.outcome with
  | .passed => [.output (heading colored .green "PASS" result)]
  | .skipped reason =>
    [.output (heading colored .yellow "SKIP" result ++ " (" ++ reason.text ++ ")")]
  | .failed failure =>
    .complaint (heading colored .red "FAIL" result) ::
      (failureLines colored failure).map .complaint

def summary (colored : Bool) (tally : Tally) : String :=
  "\nTest summary: total " ++ toString tally.total ++
    ", " ++ paint colored .green "passed" ++ " " ++ toString tally.passed ++
    ", " ++ paint colored .red "failed" ++ " " ++ toString tally.failed ++
    ", " ++ paint colored .yellow "skipped" ++ " " ++ toString tally.skipped

def failedName? (result : Result) : Option String :=
  match result.outcome with
  | .failed _ => some result.name
  | _ => none

/-- The list of failed fixtures, if there are any. -/
def failedList (results : List Result) : List ReportLine :=
  match results.filterMap failedName? with
  | [] => []
  | names => .complaint "\nFailed tests:" :: names.map fun name => .complaint ("  - " ++ name)

def report (colored : Bool) (results : List Result) : List ReportLine :=
  results.flatMap (resultLines colored) ++
    .output (summary colored (.ofResults results)) :: failedList results

end MacroScript.Fixture
