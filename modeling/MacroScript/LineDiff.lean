import MacroScript.Text.Lines

/-!
# Differences between texts

The difference between two texts is a list of blocks of lines that both share,
that only the first has, or that only the second has.  The shared lines are a
longest common subsequence, found from a table of lengths: the entry for a line of
each text is the greatest number of lines shared by the two beginnings that end
there.

The table is read back from its last entry.  Its entries stand row after row, so
to the left of a first entry stands the last entry of the row above; where that is
greater, the search ends.  A common part that is just one empty line counts as
nothing in common.
-/

namespace MacroScript.LineDiff

inductive Block where
  | same (text : String)
  | removed (text : String)
  | added (text : String)
deriving DecidableEq, Repr

/-! ## Common lines -/

/-- The entries of one row, given the row above, the entry above on the left and
the entry on the left. -/
def nextRow (line : String) (corner left : Nat) : List String → List Nat → List Nat
  | other :: lines, above :: row =>
    let entry := if line = other then corner + 1 else max left above
    entry :: nextRow line above entry lines row
  | _, _ => []

def rowsBelow (lines : List String) (row : List Nat) : List String → List (List Nat)
  | [] => []
  | line :: later =>
    let next := nextRow line 0 0 lines row
    next :: rowsBelow lines next later

/-- The table of two lists of lines, row after row. -/
def table (first second : List String) : Array Nat :=
  (rowsBelow second (second.map fun _ => 0) first).flatten.toArray

/-- Whether the search goes on to the left, from the entry in the given row and
column, rather than up. -/
def goesLeft (table : Array Nat) (width row column : Nat) : Bool :=
  row = 0 || table.getD (row * width + column - 1) 0 > table.getD ((row - 1) * width + column) 0

/-- The common lines among the first `row` lines and the first `column` lines,
followed by the ones already found. -/
def common (first second : Array String) (table : Array Nat) (row column : Nat)
    (found : List String) : List String :=
  match row, column with
  | 0, _ => found
  | _ + 1, 0 => found
  | row + 1, column + 1 =>
    let line := first.getD row ""
    if line = second.getD column "" then
      common first second table row column (line :: found)
    else if goesLeft table second.size row column then
      common first second table (row + 1) column found
    else
      common first second table row (column + 1) found
termination_by row + column

def commonLines (first second : String) : List String :=
  let left := Text.splitLines first
  let right := Text.splitLines second
  let found :=
    common left.toArray right.toArray (table left right) left.length right.length []
  if found = [""] then [] else found

/-! ## Blocks -/

/-- The lines shared at the beginning, and what is left of the two texts and of
the common lines. -/
def takeSame : (first second shared : List String) →
    List String × List String × List String × List String
  | line :: first, other :: second, expected :: shared =>
    if line = expected ∧ other = expected then
      let (same, left) := takeSame first second shared
      (line :: same, left)
    else
      ([], line :: first, other :: second, expected :: shared)
  | first, second, shared => ([], first, second, shared)

/-- A block, unless it has no lines. -/
def block (make : String → Block) : List String → List Block
  | [] => []
  | lines => [make ("\n".intercalate lines)]

/-- The blocks of two lists of lines with the given common lines. -/
def blocks : (bound : Nat) → (first second shared : List String) → List Block
  | 0, _, _, _ => []
  | _ + 1, [], [], _ => []
  | bound + 1, first, second, shared =>
    let (same, first, second, shared) := takeSame first second shared
    let isOther (line : String) : Bool := shared.head? != some line
    block .same same ++ block .removed (first.takeWhile isOther) ++
      block .added (second.takeWhile isOther) ++
      blocks bound (first.dropWhile isOther) (second.dropWhile isOther) shared

/-- The lines of a text; an empty text has none. -/
def linesOf (text : String) : List String :=
  if text.isEmpty then [] else Text.splitLines text

def diff (first second : String) : List Block :=
  let left := linesOf first
  let right := linesOf second
  blocks (left.length + right.length) left right (commonLines first second)

/-- A block with its sign, which stands before its first line only. -/
def Block.render : Block → String
  | .same text => " " ++ text
  | .removed text => "-" ++ text
  | .added text => "+" ++ text

end MacroScript.LineDiff
