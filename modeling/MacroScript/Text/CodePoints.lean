/-!
# Sets of code points

A set of characters is given by the lengths of runs of code points: how many lie outside
at first, how many of the next lie inside, how many then lie outside again, and so on in
turn.  Behind the last run all of them lie outside.  Membership counts the runs off from the
low end, so a table pays only for the part of it that lies below the character asked about.
-/

namespace MacroScript.Text

/-- Lengths of runs of code points, outside and inside of a set in turn. -/
abbrev CodePoints := List Nat

namespace CodePoints

/-- Whether `point` lies in the set, when the first run lies inside of it or not. -/
def has (inside : Bool) (point : Nat) : CodePoints → Bool
  | [] => false
  | run :: later => if point < run then inside else has (!inside) (point - run) later

/-- Whether the code point of a character lies in the set. -/
def contains (runs : CodePoints) (c : Char) : Bool :=
  runs.has false c.toNat

end CodePoints

end MacroScript.Text
