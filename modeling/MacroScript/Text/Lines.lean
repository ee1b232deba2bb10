/-!
# Lines and parts of text

`splitLines` cuts a text at every line feed, so the pieces joined by line feeds
give the text back.  `lines` is the reader's view: a final line feed does not
begin another line, and a carriage return before a line feed belongs to it.
-/

namespace MacroScript.Text

/-- The pieces of a text between line feeds; there is always one. -/
def pieces : List Char → List (List Char)
  | [] => [[]]
  | c :: rest =>
    if c = '\n' then [] :: pieces rest
    else
      match pieces rest with
      | [] => [[c]]
      | first :: later => (c :: first) :: later

/-- The texts between line feeds; there is always one. -/
def splitLines (text : String) : List String :=
  (pieces text.toList).map String.ofList

/-- A line without the carriage return at its end. -/
def dropReturn (line : List Char) : List Char :=
  if line.getLast? = some '\r' then line.dropLast else line

/-- Every piece but the last ends with a line feed, and the last is a line unless
it is empty. -/
def linesOfPieces : List (List Char) → List (List Char)
  | [] => []
  | [last] => if last.isEmpty then [] else [last]
  | line :: rest => dropReturn line :: linesOfPieces rest

def lines (text : String) : List String :=
  (linesOfPieces (pieces text.toList)).map String.ofList

/-- Texts, each ended by a line feed. -/
def unlines (texts : List String) : String :=
  String.join (texts.map (· ++ "\n"))

/-- Whether one list of characters occurs inside another. -/
def occursIn (part : List Char) : List Char → Bool
  | [] => part.isEmpty
  | c :: rest => part.isPrefixOf (c :: rest) || occursIn part rest

def contains (text part : String) : Bool :=
  occursIn part.toList text.toList

end MacroScript.Text
