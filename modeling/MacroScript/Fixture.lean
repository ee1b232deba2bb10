import MacroScript.Compile
import MacroScript.Text.Lines
import MacroScript.Text.Lowercase

/-!
# Fixtures

A fixture is an input with an expectation: the text it compiles to, or a fault of
some kind with some text in its message.  An expected text is itself read and
printed before it is compared, so its layout does not matter.  A fixture without
expectation passes when its input compiles.

Fixtures can be skipped by a mark of their own, by the mark `only` on another
fixture, and by a filter on their names that ignores case.
-/

namespace MacroScript

/-- An input with an expectation. -/
structure Fixture where
  name : String
  input : String
  expected : Option String := none
  /-- A text that the message must contain. -/
  expectedMessage : Option String := none
  expectedKind : Option String := none
  skip : Bool := false
  /-- Whether all fixtures without this mark are left out. -/
  only : Bool := false
deriving DecidableEq, Repr

namespace Fixture

/-! ## Outcomes -/

/-- Why a fixture fails.  Faults are given by their message. -/
inductive Failure where
  | fault (message : String)
  | noFault (actual : String)
  | unknownKind (name : String)
  | otherKind (expected found : FaultKind) (message : String)
  | otherMessage (expected message : String)
  | otherOutput (expected actual : String)
  | unreadableExpectation (message actual : String)
  | unreadableSuite (path : String)
deriving DecidableEq, Repr

namespace Failure

def text : Failure → String
  | .fault message => message
  | .noFault _ => "expected an error but compilation succeeded"
  | .unknownKind name => "unknown error type in fixture: " ++ name
  | .otherKind expected found message =>
    "expected " ++ expected.label ++ " error but got " ++ found.label ++ ": " ++ message
  | .otherMessage expected message =>
    "expected error containing '" ++ expected ++ "' but got: " ++ message
  | .otherOutput expected _ => "output did not match expected\n" ++ expected
  | .unreadableExpectation message _ =>
    "fixture's expected output does not parse: " ++ message
  | .unreadableSuite path => "failed to parse YAML in " ++ path

/-- The text that the input compiled to, if it did. -/
def actual? : Failure → Option String
  | .noFault actual | .otherOutput _ actual | .unreadableExpectation _ actual => some actual
  | _ => none

end Failure

inductive SkipReason where
  | notOnly
  | marked
  | filtered (filter : String)
deriving DecidableEq, Repr

def SkipReason.text : SkipReason → String
  | .notOnly => "not marked 'only' in 'only' mode"
  | .marked => "marked 'skip'"
  | .filtered filter => "filtered out by substring: " ++ filter

inductive Outcome where
  | passed
  | failed (failure : Failure)
  | skipped (reason : SkipReason)
deriving DecidableEq, Repr

/-! ## Running -/

def compileInput (input : String) : Except Diagnostic String :=
  (compileSource { emitMap := false } input).map Printed.code

/-- An expected text in the layout of compiled texts. -/
def normalize (expected : String) : Except Fault String := do
  let program ← parse expected
  let printed ← print program {}
  return printed.code

def expectsFault (fixture : Fixture) : Bool :=
  fixture.expectedMessage.isSome || fixture.expectedKind.isSome

/-- Compare a message with the text that is expected in it. -/
def checkMessage (fixture : Fixture) (message : String) : Outcome :=
  match fixture.expectedMessage with
  | none => .passed
  | some expected =>
    if Text.contains message expected then .passed
    else .failed (.otherMessage expected message)

/-- Compare a fault with the expected one: first its kind, then its message. -/
def checkFault (fixture : Fixture) (diagnostic : Diagnostic) : Outcome :=
  match fixture.expectedKind with
  | none => fixture.checkMessage diagnostic.display
  | some name =>
    match FaultKind.ofName? name with
    | none => .failed (.unknownKind name)
    | some kind =>
      if diagnostic.kind = kind then fixture.checkMessage diagnostic.display
      else .failed (.otherKind kind diagnostic.kind diagnostic.display)

def checkOutput (fixture : Fixture) (code : String) : Outcome :=
  match fixture.expected with
  | none => .passed
  | some expected =>
    match normalize expected with
    | .error fault =>
      .failed (.unreadableExpectation (Diagnostic.ofFault fault).display code)
    | .ok normalized =>
      if normalized = code then .passed else .failed (.otherOutput normalized code)

/-- Compile the input and compare the result with the expectation. -/
def run (fixture : Fixture) : Outcome :=
  match compileInput fixture.input with
  | .ok code =>
    if fixture.expectsFault then .failed (.noFault code) else fixture.checkOutput code
  | .error diagnostic =>
    if fixture.expectsFault then fixture.checkFault diagnostic
    else .failed (.fault diagnostic.display)

/-! ## Selection -/

/-- Whether a name contains the filter, in any case. -/
def matchesFilter (name filter : String) : Bool :=
  Text.contains (Text.lowercase name) (Text.lowercase filter)

/-- Why a fixture is skipped, if it is.  `anyOnly` tells whether some fixture has
the mark `only`. -/
def skipReason? (fixture : Fixture) (anyOnly : Bool) (filter : Option String) :
    Option SkipReason :=
  if anyOnly && !fixture.only then some .notOnly
  else if fixture.skip then some .marked
  else
    match filter with
    | none => none
    | some text => if matchesFilter fixture.name text then none else some (.filtered text)

def runSelected (fixture : Fixture) (anyOnly : Bool) (filter : Option String) : Outcome :=
  match fixture.skipReason? anyOnly filter with
  | some reason => .skipped reason
  | none => fixture.run

end Fixture

end MacroScript
