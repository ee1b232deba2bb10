/-!
# Directories

A directory holds files by their paths; a path is the list of names that lead to
the file.  A directory inside it exists as long as it holds a file.

Paths are written with slashes.  An empty part and a dot stay where they are, two
dots go back up, and each of them asks for a directory there.  Paths that leave
the directory lead nowhere.
-/

namespace MacroScript

/-- Files by the names that lead to them, with their text. -/
structure Directory where
  files : List (List String × String) := []
deriving DecidableEq, Repr

namespace Directory

def get? (directory : Directory) (place : List String) : Option String :=
  directory.files.lookup place

def isDirectory (directory : Directory) (place : List String) : Bool :=
  place.isEmpty ||
    directory.files.any fun (path, _) => place.isPrefixOf path && place.length < path.length

/-- Put a text at a place, in the stead of the one there. -/
def put (directory : Directory) (place : List String) (text : String) : Directory :=
  if (directory.get? place).isSome then
    ⟨directory.files.map fun (path, old) => if path = place then (path, text) else (path, old)⟩
  else
    ⟨directory.files ++ [(place, text)]⟩

/-- Go on from a place by the parts of a path. -/
def follow? (directory : Directory) : (place parts : List String) → Option (List String)
  | place, [] => some place
  | place, part :: rest =>
    if directory.isDirectory place then
      if part = "" ∨ part = "." then directory.follow? place rest
      else if part = ".." then
        if place.isEmpty then none else directory.follow? place.dropLast rest
      else directory.follow? (place ++ [part]) rest
    else none

/-- The place that a written path leads to.  The last name need not exist. -/
def place? (directory : Directory) (path : String) : Option (List String) :=
  if path.isEmpty || path.startsWith "/" then none
  else directory.follow? [] (path.splitOn "/")

def read? (directory : Directory) (path : String) : Option String :=
  (directory.place? path).bind directory.get?

/-- Write a file, unless its path leads nowhere or to a directory. -/
def write? (directory : Directory) (path text : String) : Option Directory :=
  match directory.place? path with
  | none => none
  | some place => if directory.isDirectory place then none else some (directory.put place text)

/-- The written path of a file below another written path. -/
def below (path : String) (names : List String) : String :=
  (if path.endsWith "/" then path else path ++ "/") ++ "/".intercalate names

/-- The written paths of all files at or below a written path. -/
def filesUnder (directory : Directory) (path : String) : List String :=
  match directory.place? path with
  | none => []
  | some place =>
    if (directory.get? place).isSome then [path]
    else
      (directory.files.filter fun (file, _) => place.isPrefixOf file).map fun (file, _) =>
        below path (file.drop place.length)

end Directory

end MacroScript
