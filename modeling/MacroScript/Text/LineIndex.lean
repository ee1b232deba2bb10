import MacroScript.Text.Position

/-!
# The lines of a text

A line index holds the byte offsets at which the lines of a text start.  The
line of an offset is found among them by halving, and its column by counting
the characters from the start of the line.
-/

namespace MacroScript.Text

/-- The number of characters in the first bytes of a text, if a character ends
there. -/
def charactersIn? : List Char → Nat → Option Nat
  | _, 0 => some 0
  | [], _ + 1 => none
  | c :: rest, bytes =>
    if c.utf8Size ≤ bytes then
      (charactersIn? rest (bytes - c.utf8Size)).map (· + 1)
    else none

/-- The number of characters between two offsets of a text.  Both have to be
boundaries of characters, in order. -/
def charactersBetween? (text : List Char) (start stop : Nat) : Option Nat := do
  let passed ← charactersIn? text start
  let reached ← charactersIn? text stop
  if start ≤ stop then some (reached - passed) else none

/-- The first of `size` numbers from `base` on that fails a test, or the number
behind them.  Whatever follows a number that fails has to fail too: half of the
numbers are left out in every round. -/
def partitionPoint (test : Nat → Bool) (base size : Nat) : Nat :=
  if size = 0 then base
  else if size = 1 then
    if test base then base + 1 else base
  else
    let half := size / 2
    if test (base + half) then partitionPoint test (base + half) (size - half)
    else partitionPoint test base (size - half)
termination_by size

/-- The byte offsets at which the lines of a text start. -/
structure LineIndex where
  starts : Array Nat

namespace LineIndex

/-- The offsets behind the line ends of a text that begins at an offset. -/
def startsFrom (offset : Nat) : List Char → List Nat
  | [] => []
  | c :: rest =>
    if endsLine c rest then
      (offset + c.utf8Size) :: startsFrom (offset + c.utf8Size) rest
    else startsFrom (offset + c.utf8Size) rest

/-- The first line of a text starts with it. -/
def ofText (text : List Char) : LineIndex where
  starts := (0 :: startsFrom 0 text).toArray

/-- The place of a byte offset of a text, with counters of 32 bits. -/
def locate (index : LineIndex) (text : List Char) (offset : Nat) : Position :=
  let line := partitionPoint (fun i => index.starts[i]?.any (· ≤ offset)) 0 index.starts.size
  let start := index.starts[line - 1]?.getD 0
  { offset
    line := narrow line
    column := narrow ((charactersBetween? text start offset).getD 0) }

end LineIndex

end MacroScript.Text
