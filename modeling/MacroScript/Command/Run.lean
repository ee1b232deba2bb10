import MacroScript.Command
import MacroScript.Command.Listing
import MacroScript.Directory
import MacroScript.Fixture.Report
import MacroScript.Tree.Encoding

/-!
# Running commands

A command runs on a host, which holds the files and takes what is printed.  The
commands only use the operations of `Host`; `World` is a host in memory.

A command that fails leaves what it has printed and written before.
-/

namespace MacroScript

/-- The operations that commands need from their surroundings. -/
class Host (m : Type → Type) where
  read : (path : String) → m (Option String)
  /-- Write a file; the answer tells whether that was possible. -/
  write : (path text : String) → m Bool
  filesUnder : (path : String) → m (List String)
  print : (text : String) → m Unit
  complain : (text : String) → m Unit

inductive Status where
  | success
  | failure
  | misuse
deriving DecidableEq, Repr

/-- The number by which the program reports how it ended. -/
def Status.code : Status → Nat
  | .success => 0
  | .failure => 1
  | .misuse => 2

namespace Command

variable {m : Type → Type} [Monad m] [Host m]

def fail (message : String) : m Status := do
  Host.complain (message ++ "\n")
  return .failure

/-- Run a computation on the source in a file, in a session of its own. -/
def onSource {α : Type} (file : String) (action : String → SessionM α)
    (finish : α → Session → m Status) : m Status := do
  match ← Host.read file with
  | none => fail ("failed to read " ++ file)
  | some source =>
    match action source {} with
    | .ok value session => finish value session
    | .error fault _ => fail (Diagnostic.ofFault fault).display

def writeThen (path text : String) (next : m Status) : m Status := do
  if ← Host.write path text then next else fail ("failed to write " ++ path)

def fileName (path : String) : Option String :=
  (Fixture.pathParts path).getLast?

/-- Write the source map of a unit, if it is wanted. -/
def writeMap (printed : Printed) (output path : Option String) : m Status :=
  match path, printed.map with
  | some path, some map =>
    let named := { map with file := output.bind fileName }
    writeThen path named.toJson.compact (return .success)
  | _, _ => return .success

/-- Compile a file, print or write the result, and write the source map. -/
def runExpand (file : String) (output map : Option String) (includeContent : Bool) :
    m Status :=
  let options : CompileOptions :=
    { sourceName := file, emitMap := map.isSome, includeContent }
  onSource file (compileUnit options) fun printed _ =>
    match output with
    | some path => writeThen path printed.code (writeMap printed output map)
    | none => do
      Host.print printed.code
      writeMap printed output map

def runTrace (file : String) : m Status :=
  onSource file (expandSource { sourceName := file, recordTrace := true, emitMap := false })
    fun _ session => do
      Host.print (Listing.trace session.trace.toList)
      return .success

def runTokens (file : String) : m Status :=
  let action (source : String) : SessionM (List Token) :=
    match tokenize source with
    | .ok scanned => return scanned
    | .error fault => throw fault
  onSource file action fun scanned _ => do
    Host.print (Listing.tokens scanned)
    return .success

def runTree (file : String) (expanded : Bool) : m Status :=
  let action (source : String) : SessionM Program :=
    if expanded then expandSource { sourceName := file } source else Session.readProgram source
  onSource file action fun program _ => do
    Host.print ((programJson program).pretty 0 ++ "\n")
    return .success

def runMacros (file : String) : m Status :=
  onSource file Session.readProgram fun _ session => do
    Host.print (Listing.macros session.macros.definitions.toList)
    return .success

def loadSuites (root : String) : m (List Fixture.Suite) := do
  let files ← Host.filesUnder root
  (Fixture.suitePaths files).mapM fun path => do
    let text ← Host.read path
    return { path, fixtures := text.bind Fixture.readSuite? }

def printReport : List Fixture.ReportLine → m Unit
  | [] => return ()
  | .output text :: rest => do
    Host.print (text ++ "\n")
    printReport rest
  | .complaint text :: rest => do
    Host.complain (text ++ "\n")
    printReport rest

/-- Run the suites at or below a path and report on them. -/
def testSuites (root : String) (filter : Option String) (colored : Bool) :
    m Fixture.Tally := do
  let suites ← loadSuites root
  let results := Fixture.runSuites suites filter
  printReport (Fixture.report colored results)
  return .ofResults results

/-- Run suites; the command fails when a fixture does. -/
def runTest (root : String) (filter : Option String) (colored : Bool) : m Status := do
  let tally ← testSuites root filter colored
  if tally.failed = 0 then return .success
  else
    fail (toString tally.failed ++ " of " ++ toString tally.total ++ " tests failed")

def versionText : String :=
  "macrojs 0.1.0\n"

def helpText : String :=
  Text.unlines
    [ "Hygienic, pattern-matched syntactic macros, expanded at compile time.",
      "",
      "Usage: macrojs <COMMAND>",
      "",
      "Commands:",
      "  expand FILE [-o|--output OUT] [--source-map PATH] [--sources-content]",
      "  trace FILE",
      "  tokens FILE",
      "  ast FILE [--expanded]",
      "  macros FILE",
      "  test [PATH] [--filter TEXT]",
      "",
      "Options:",
      "  -h, --help     Print help",
      "  -V, --version  Print version" ]

/-- Run a command.  `colored` tells whether reports are in color. -/
def run (colored : Bool) : Command → m Status
  | .help => do
    Host.print helpText
    return .success
  | .version => do
    Host.print versionText
    return .success
  | .expand file output map includeContent => runExpand file output map includeContent
  | .trace file => runTrace file
  | .tokens file => runTokens file
  | .tree file expanded => runTree file expanded
  | .macros file => runMacros file
  | .test root filter => runTest root filter colored

/-- Read the arguments of the program and run the command they give. -/
def runArguments (colored : Bool) (arguments : List String) : m Status :=
  match read arguments with
  | .ok command => command.run colored
  | .error problem => do
    Host.complain ("error: " ++ problem.text ++ "\n")
    return .misuse

end Command

/-! ## A host in memory -/

/-- Files, and what was printed so far. -/
structure World where
  directory : Directory := {}
  output : String := ""
  complaints : String := ""
deriving DecidableEq, Repr

instance : Host (StateM World) where
  read path := return (← get).directory.read? path
  write path text := do
    let world ← get
    match world.directory.write? path text with
    | some directory =>
      set { world with directory }
      return true
    | none => return false
  filesUnder path := return (← get).directory.filesUnder path
  print text := modify fun world => { world with output := world.output ++ text }
  complain text := modify fun world => { world with complaints := world.complaints ++ text }

end MacroScript
