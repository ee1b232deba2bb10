/-!
# Commands

The commands of the program and the reading of its arguments.

Options may stand before and behind the other arguments.  An option with a value
takes the rest of its own argument or, when there is none, the next argument,
which must not look like an option.  Every option may be given once.  Behind `--`
no argument is an option.  A request for help ends the reading of arguments.
-/

namespace MacroScript

/-- What the program is asked to do. -/
inductive Command where
  | help
  | version
  | expand (file : String) (output map : Option String) (includeContent : Bool)
  | trace (file : String)
  | tokens (file : String)
  | tree (file : String) (expanded : Bool)
  | macros (file : String)
  | test (root : String) (filter : Option String)
deriving DecidableEq, Repr

/-- Why arguments cannot be read. -/
inductive UsageProblem where
  | noCommand
  | unknownCommand (name : String)
  | unknownOption (argument : String)
  | missingValue (option : String)
  | unexpectedValue (option : String)
  | repeatedOption (option : String)
  | emptyPath
  | missingFile
  | unexpectedArgument (argument : String)
deriving DecidableEq, Repr

def UsageProblem.text : UsageProblem → String
  | .noCommand => "a command is required"
  | .unknownCommand name => "unrecognized command '" ++ name ++ "'"
  | .unknownOption argument => "unexpected option '" ++ argument ++ "'"
  | .missingValue option => "a value is required for '--" ++ option ++ "'"
  | .unexpectedValue option => "no value is allowed for '--" ++ option ++ "'"
  | .repeatedOption option => "'--" ++ option ++ "' cannot be given twice"
  | .emptyPath => "a path cannot be empty"
  | .missingFile => "a file is required"
  | .unexpectedArgument argument => "unexpected argument '" ++ argument ++ "'"

namespace Command

/-! ## Options -/

inductive OptionKind where
  | flag
  | path
  | text
deriving DecidableEq, Repr

/-- An option with its name and, for some, a letter. -/
structure OptionSpec where
  name : String
  letter : Option Char := none
  kind : OptionKind

/-- The options and arguments given so far. -/
structure Given where
  /-- Options with their values; those of flags are empty. -/
  options : List (String × String) := []
  /-- The argument that is not an option. -/
  argument : Option String := none
  help : Bool := false

namespace Given

def addOption (given : Given) (spec : OptionSpec) (value : String) :
    Except UsageProblem Given :=
  if (given.options.lookup spec.name).isSome then .error (.repeatedOption spec.name)
  else if spec.kind = .path ∧ value = "" then .error .emptyPath
  else .ok { given with options := given.options ++ [(spec.name, value)] }

/-- Add an argument that is not an option; there is room for one. -/
def addArgument (given : Given) (argument : String) : Except UsageProblem Given :=
  if given.argument.isSome then .error (.unexpectedArgument argument)
  else if argument = "" then .error .emptyPath
  else .ok { given with argument := some argument }

def value? (given : Given) (name : String) : Option String :=
  given.options.lookup name

end Given

/-! ## Arguments -/

/-- The sorts of arguments.  A value is attached by an equals sign, or directly to
a letter. -/
inductive Argument where
  | plain
  | endOfOptions
  | named (name : String) (value : Option String)
  | lettered (letter : Char) (value : Option String)
deriving DecidableEq, Repr

namespace Argument

/-- The value attached to a letter, if there is one. -/
def attached? : List Char → Option String
  | [] => none
  | '=' :: value => some (String.ofList value)
  | value => some (String.ofList value)

def ofText (text : String) : Argument :=
  match text.toList with
  | ['-', '-'] => .endOfOptions
  | '-' :: '-' :: rest =>
    let name := rest.takeWhile (· != '=')
    let value := match rest.dropWhile (· != '=') with
      | [] => none
      | _ :: value => some (String.ofList value)
    .named (String.ofList name) value
  | '-' :: letter :: rest => .lettered letter (attached? rest)
  | _ => .plain

end Argument

/-- The option that an argument gives, with the value attached to it. -/
def option? (specs : List OptionSpec) : Argument → Option (OptionSpec × Option String)
  | .named name value => (specs.find? (·.name = name)).map (·, value)
  | .lettered letter value => (specs.find? (·.letter = some letter)).map (·, value)
  | _ => none

/-- Whether an argument asks for help.  A value cannot be attached to the name. -/
def Argument.asksHelp : Argument → Bool
  | .named name value => name = "help" && value.isNone
  | .lettered letter _ => letter = 'h'
  | _ => false

/-- Take note of an option.  The answer also names the option when its value is
yet to come. -/
def takeOption (given : Given) (spec : OptionSpec) (attached : Option String) :
    Except UsageProblem (Option OptionSpec × Given) :=
  match spec.kind, attached with
  | .flag, none => (given.addOption spec "").map (none, ·)
  | .flag, some _ => .error (.unexpectedValue spec.name)
  | _, some value => (given.addOption spec value).map (none, ·)
  | _, none => .ok (some spec, given)

/-- Read arguments with the given options.  `pending` is an option whose value is
the next argument. -/
def readArguments (specs : List OptionSpec) :
    (pending : Option OptionSpec) → Given → List String → Except UsageProblem Given
  | none, given, [] => .ok given
  | some spec, _, [] => .error (.missingValue spec.name)
  | some spec, given, text :: rest =>
    if Argument.ofText text = .plain then
      (given.addOption spec text).bind (readArguments specs none · rest)
    else .error (.missingValue spec.name)
  | none, given, text :: rest =>
    match Argument.ofText text with
    | .endOfOptions => rest.foldlM Given.addArgument given
    | .plain => (given.addArgument text).bind (readArguments specs none · rest)
    | argument =>
      if argument.asksHelp then .ok { given with help := true }
      else
        match option? specs argument with
        | none => .error (.unknownOption text)
        | some (spec, attached) =>
          (takeOption given spec attached).bind fun (pending, given) =>
            readArguments specs pending given rest

/-! ## Commands -/

def options : List (String × List OptionSpec) :=
  [ ("expand",
      [ { name := "output", letter := some 'o', kind := .path },
        { name := "source-map", kind := .path },
        { name := "sources-content", kind := .flag } ]),
    ("trace", []),
    ("tokens", []),
    ("ast", [{ name := "expanded", kind := .flag }]),
    ("macros", []),
    ("test", [{ name := "filter", kind := .text }]) ]

/-- The root of the suites when none is given. -/
def defaultRoot : String :=
  "tests/suites"

def requiredFile (given : Given) : Except UsageProblem String :=
  match given.argument with
  | some file => .ok file
  | none => .error .missingFile

def ofGiven (name : String) (given : Given) : Except UsageProblem Command :=
  if given.help then .ok .help
  else
    match name with
    | "test" => .ok (.test (given.argument.getD defaultRoot) (given.value? "filter"))
    | "expand" => do
      let file ← requiredFile given
      .ok
        (.expand file (given.value? "output") (given.value? "source-map")
          (given.value? "sources-content").isSome)
    | "trace" => (requiredFile given).map .trace
    | "tokens" => (requiredFile given).map .tokens
    | "ast" => (requiredFile given).map (.tree · (given.value? "expanded").isSome)
    | "macros" => (requiredFile given).map .macros
    | _ => .error (.unknownCommand name)

def helpOn : List String → Except UsageProblem Command
  | [] => .ok .help
  | name :: _ =>
    if name = "help" || (options.lookup name).isSome then .ok .help
    else .error (.unknownCommand name)

def read : List String → Except UsageProblem Command
  | [] => .error .noCommand
  | first :: rest =>
    match Argument.ofText first with
    | .endOfOptions => .error .noCommand
    | .named "help" none => .ok .help
    | .named "version" none => .ok .version
    | .lettered 'h' _ => .ok .help
    | .lettered 'V' _ => .ok .version
    | .plain =>
      match options.lookup first with
      | some specs => (readArguments specs none {} rest).bind (ofGiven first)
      | none => if first = "help" then helpOn rest else .error (.unknownCommand first)
    | _ => .error (.unknownOption first)

end Command

end MacroScript
