import MacroScript.Text.CodePoints

/-!
# Whitespace

The code points with the Unicode property `White_Space`, and trimming of text
by it.
-/

namespace MacroScript.Text

/-- Code points with the property `White_Space`. -/
def whitespace : CodePoints :=
  [ 9, 5, 18, 1, 100, 1, 26, 1, 5599, 1, 2431, 11, 29, 2, 5, 1, 47, 1, 4000, 1 ]

def trimEnd (text : List Char) : List Char :=
  (text.reverse.dropWhile whitespace.contains).reverse

def trim (text : List Char) : List Char :=
  trimEnd (text.dropWhile whitespace.contains)

end MacroScript.Text
