import MacroScript.Layout.Tree
import MacroScript.SourceMap

/-!
# Printing programs

`print` writes a program as text and, on request, as a source map.  It fails at
the first macro declaration or macro call, in the order of writing: those have no
written form.  The options concern the map only.
-/

namespace MacroScript

/-- What a source map should say. -/
structure PrintOptions where
  sourceName : String := "input.js"
  file : Option String := none
  emitMap : Bool := false
  sourcesContent : Option String := none

structure Printed where
  code : String
  map : Option SourceMap
deriving DecidableEq, Repr

namespace MapBuilder

def ofPlaces (places : List Item.Placed) : MapBuilder :=
  places.foldl (fun builder place => builder.add place.line place.column place.span place.name) {}

end MapBuilder

def mapOf (items : List Item) (options : PrintOptions) : SourceMap :=
  .ofBuilder (.ofPlaces (Item.places items)) options.file options.sourceName
    options.sourcesContent

def print (program : Program) (options : PrintOptions) : Except Fault Printed :=
  let items := Layout.programItems program
  match items.findSome? Item.fault? with
  | some fault => .error fault
  | none =>
    .ok
      { code := Item.render items
        map := if options.emitMap then some (mapOf items options) else none }

end MacroScript
