import MacroScript.Command.Run

/-!
# The command line

The program on the files of the machine.  It reads and writes single files; the
suites of the command `test` are given by the path of one file.
-/

namespace MacroScript

/-- Run an action and tell whether it succeeded. -/
def attempt {α : Type} (action : IO α) : IO (Option α) := do
  match ← action.toBaseIO with
  | .ok value => return some value
  | .error _ => return none

instance : Host IO where
  read path := attempt (IO.FS.readFile path)
  write path text := return (← attempt (IO.FS.writeFile path text)).isSome
  filesUnder path := do
    match ← (IO.FS.readFile path).toBaseIO with
    | .ok _ => return [path]
    | .error (.noFileOrDirectory ..) => return []
    | .error _ => throw (IO.userError ("cannot list the files under " ++ path))
  print text := do (← IO.getStdout).putStr text
  complain text := do (← IO.getStderr).putStr text

end MacroScript

def main (arguments : List String) : IO UInt32 := do
  let colored ← (← IO.getStderr).isTty
  let status : MacroScript.Status ← MacroScript.Command.runArguments colored arguments
  return status.code.toUInt32
