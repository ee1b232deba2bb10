import MacroScript.Fixture
import MacroScript.Json.Reading

/-!
# Suites

A suite is a file that lists fixtures.  It is written as a JSON array with one
object for each fixture; such text is also YAML, and suites are recognized by the
file extensions `yaml` and `yml`.

The fixtures of all suites are run together, so the mark `only` reaches across
files.  A file that holds no suite counts as one failure, and these failures come
first.
-/

namespace MacroScript.Fixture

/-! ## Notation -/

/-- A text that may be missing; `none` when it is something else. -/
def optionalText? : Json → Option (Option String)
  | .null => some none
  | .string value => some (some value)
  | _ => none

/-- The member of an object if it is a text. -/
def textMember? (value : Json) (key : String) : Option String :=
  match value.member key with
  | .string text => some text
  | _ => none

/-- A mark that is off when its member is missing. -/
def markMember? (members : List (String × Json)) (key : String) : Option Bool :=
  match members.lookup key with
  | none => some false
  | some (.bool mark) => some mark
  | some _ => none

/-- The fixture that an object describes.  Members without meaning are ignored. -/
def ofJson? : Json → Option Fixture
  | .object members => do
    let value := Json.object members
    return {
      name := ← textMember? value "name"
      input := ← textMember? value "input"
      expected := ← optionalText? (value.member "expected")
      expectedMessage := ← optionalText? (value.member "expect_error")
      expectedKind := ← optionalText? (value.member "expect_error_type")
      skip := ← markMember? members "skip"
      only := ← markMember? members "only" }
  | _ => none

def toJson (fixture : Fixture) : Json :=
  .object
    [ ("name", .string fixture.name),
      ("input", .string fixture.input),
      ("expected", .ofOption .string fixture.expected),
      ("expect_error", .ofOption .string fixture.expectedMessage),
      ("expect_error_type", .ofOption .string fixture.expectedKind),
      ("skip", .bool fixture.skip),
      ("only", .bool fixture.only) ]

def readSuite? (text : String) : Option (List Fixture) :=
  match Json.read? text with
  | some (.array items) => items.mapM ofJson?
  | _ => none

def writeSuite (fixtures : List Fixture) : String :=
  (Json.ofList toJson fixtures).compact

/-! ## Files -/

def pathParts (path : String) : List String :=
  path.splitOn "/"

/-- The extension of a file name: what follows its last dot, unless the name
begins with that dot. -/
def extension? (name : String) : Option String :=
  match (name.splitOn ".").reverse with
  | last :: stem :: earlier => if earlier.isEmpty && stem.isEmpty then none else some last
  | _ => none

def isSuitePath (path : String) : Bool :=
  let name := (pathParts path).getLast?.getD ""
  extension? name == some "yaml" || extension? name == some "yml"

/-- The rank of a character in a path: the slash comes before all others, so that
paths are ordered part by part. -/
def pathRank (c : Char) : Nat :=
  if c = '/' then 0 else c.toNat + 1

/-- Whether a path does not come behind another. -/
def pathAtMost : List Char → List Char → Bool
  | [], _ => true
  | _ :: _, [] => false
  | c :: first, d :: second =>
    pathRank c < pathRank d || (c == d && pathAtMost first second)

/-- The suites among files, ordered by the parts of their paths. -/
def suitePaths (files : List String) : List String :=
  (files.filter isSuitePath).mergeSort fun first second =>
    pathAtMost first.toList second.toList

/-! ## Results -/

/-- A file that should hold a suite, with its fixtures if it does. -/
structure Suite where
  path : String
  fixtures : Option (List Fixture)

structure Result where
  path : String
  name : String
  outcome : Outcome
deriving DecidableEq, Repr

/-- The failure of a file that holds no suite. -/
def Suite.loadFailure? (suite : Suite) : Option Result :=
  match suite.fixtures with
  | none => some ⟨suite.path, "<load>", .failed (.unreadableSuite suite.path)⟩
  | some _ => none

/-- The fixtures of a file, each with the path. -/
def Suite.entries (suite : Suite) : List (String × Fixture) :=
  (suite.fixtures.getD []).map (suite.path, ·)

def runSuites (suites : List Suite) (filter : Option String) : List Result :=
  let entries := suites.flatMap Suite.entries
  let anyOnly := entries.any fun (_, fixture) => fixture.only
  suites.filterMap Suite.loadFailure? ++
    entries.map fun (path, fixture) =>
      ⟨path, fixture.name, fixture.runSelected anyOnly filter⟩

end MacroScript.Fixture
