import MacroScript.Fault

/-!
# Layout items

A program is written as a list of items: tokens, blanks, line ends,
indentations, and marks that say which source text is being written.  A node that
cannot be written leaves a stray item with its fault.

Writing has two views of the same list.  `Item.render` is the text.
`Item.places` gives every mark the line and column at which it stands, both
counted from zero, in 32 bits, and the column in characters.
-/

namespace MacroScript

inductive Item where
  /-- A token, written as it is. -/
  | token (text : String)
  | space
  | newline
  /-- The blanks before a line of the given depth. -/
  | indent (depth : Nat)
  /-- The beginning of what was read from a span, with the name that the source
  has there. -/
  | mark (span : Span) (name : Option String)
  /-- A node that cannot be written. -/
  | stray (fault : Fault)
deriving Repr

namespace Item

/-- Four blanks per level of depth. -/
def indentText (depth : Nat) : String :=
  String.ofList (List.replicate (4 * depth) ' ')

def text : Item → String
  | .token text => text
  | .space => " "
  | .newline => "\n"
  | .indent depth => indentText depth
  | .mark _ _ => ""
  | .stray _ => ""

def render (items : List Item) : String :=
  String.join (items.map text)

def fault? : Item → Option Fault
  | .stray fault => some fault
  | _ => none

/-- A mark with the place at which it stands. -/
structure Placed where
  line : Nat
  column : Nat
  span : Span
  name : Option String

/-- The marks of a list of items that is written from the given place. -/
def placesFrom : (line column : Nat) → List Item → List Placed
  | _, _, [] => []
  | line, _, .newline :: rest => placesFrom (narrow (line + 1)) 0 rest
  | line, column, .mark span name :: rest =>
    ⟨line, column, span, name⟩ :: placesFrom line column rest
  | line, column, item :: rest => placesFrom line (narrow (column + item.text.length)) rest

/-- The marks of a list of items, with their places. -/
def places (items : List Item) : List Placed :=
  placesFrom 0 0 items

/-! ## Building lists of items -/

def parens (items : List Item) : List Item :=
  .token "(" :: items ++ [.token ")"]

def parensIf (condition : Bool) (items : List Item) : List Item :=
  if condition then parens items else items

/-- Groups of items with a comma and a blank in between. -/
def commaJoin : List (List Item) → List Item
  | [] => []
  | [group] => group
  | group :: rest => group ++ .token "," :: .space :: commaJoin rest

end Item

end MacroScript
