import MacroScript.Proofs.Outcome
import MacroScript.Proofs.Scanning

/-!
# Lines and columns are exact

The line of a place in a text is one more than the number of line terminators that end before it,
and its column is the number of characters since the last of them.  A carriage return and the line
feed behind it are one terminator, so a place between them still belongs to the line that they end.

Lines and columns are held in counters of 32 bits, so what is exact is what these counters hold of
them: the numbers themselves if both are below 2 ^ 32, and no others.
-/

namespace MacroScript.Text

/-! ## Line terminators -/

end MacroScript.Text

namespace MacroScript

open MacroScript.Text

end MacroScript
