import MacroScript.Json
import MacroScript.SourceMap.Vlq
import MacroScript.Span

/-!
# Source maps

A source map relates places of written text to places of the source.  It is
built from segments, line by line; a segment holds a column of the written text,
a line and a column of the source, all counted from zero, and possibly the number
of a name.

In the encoded form the column of the written text is relative to the segment
before it on the same line, and every other field is relative to the segment
before it in the whole map.
-/

namespace MacroScript

/-- One relation between written text and source. -/
structure Segment where
  column : Nat
  sourceLine : Nat
  sourceColumn : Nat
  name : Option Nat
deriving DecidableEq, Repr

/-- The segments of every line and the names they refer to. -/
structure MapBuilder where
  lines : Array (Array Segment) := #[]
  names : Array String := #[]

namespace MapBuilder

/-- The names with the given one among them, and its number. -/
def intern (names : Array String) (name : String) : Array String × Nat :=
  match names.findIdx? (· == name) with
  | some number => (names, number)
  | none => (names.push name, names.size)

/-- Add a segment to a line.  Where the last segment has the same column, a new
one takes its place only if it brings a name. -/
def addSegment (segments : Array Segment) (segment : Segment) : Array Segment :=
  match segments.back? with
  | some last =>
    if last.column = segment.column then
      if last.name.isNone && segment.name.isSome then segments.pop.push segment else segments
    else segments.push segment
  | none => segments.push segment

def padded (lines : Array (Array Segment)) (line : Nat) : Array (Array Segment) :=
  lines ++ Array.replicate (line + 1 - lines.size) #[]

/-- Relate a place of the written text to a span.  A span that lies on no line is
left out. -/
def add (builder : MapBuilder) (line column : Nat) (span : Span) (name : Option String) :
    MapBuilder :=
  if span.line = 0 then builder
  else
    let (names, number) := match name with
      | some text =>
        let (names, number) := intern builder.names text
        (names, some number)
      | none => (builder.names, none)
    let segment : Segment := ⟨column, span.line - 1, span.column, number⟩
    { lines := (padded builder.lines line).modify line (addSegment · segment), names }

end MapBuilder

/-! ## Encoded segments -/

/-- The fields that later segments refer to. -/
structure MapFields where
  sourceLine : Nat := 0
  sourceColumn : Nat := 0
  name : Nat := 0

/-- A field relative to its former value. -/
def relative (current former : Nat) : String :=
  Vlq.encode (Int64.ofInt ((current : Int) - former))

namespace Segment

/-- The text of a segment, after a segment at `column` on the same line. -/
def encode (segment : Segment) (column : Nat) (fields : MapFields) : String :=
  relative segment.column column ++ Vlq.encode 0 ++
    relative segment.sourceLine fields.sourceLine ++
    relative segment.sourceColumn fields.sourceColumn ++
    match segment.name with
    | some number => relative number fields.name
    | none => ""

/-- The fields that segments behind this one refer to. -/
def fieldsAfter (segment : Segment) (fields : MapFields) : MapFields :=
  ⟨segment.sourceLine, segment.sourceColumn, segment.name.getD fields.name⟩

/-- The texts of the segments of a line, and the fields behind it. -/
def encodeLine (column : Nat) (fields : MapFields) : List Segment → List String × MapFields
  | [] => ([], fields)
  | segment :: rest =>
    let (texts, final) := encodeLine segment.column (segment.fieldsAfter fields) rest
    (segment.encode column fields :: texts, final)

def encodeLines (fields : MapFields) : List (List Segment) → List String
  | [] => []
  | line :: rest =>
    let (texts, next) := encodeLine 0 fields line
    ",".intercalate texts :: encodeLines next rest

end Segment

/-! ## Whole maps -/

/-- A source map of version 3. -/
structure SourceMap where
  file : Option String
  sources : List String
  sourcesContent : Option (List String)
  names : List String
  mappings : String
deriving DecidableEq, Repr

namespace SourceMap

def ofBuilder (builder : MapBuilder) (file : Option String) (sourceName : String)
    (content : Option String) : SourceMap :=
  { file
    sources := [sourceName]
    sourcesContent := content.map ([·])
    names := builder.names.toList
    mappings := ";".intercalate (Segment.encodeLines {} (builder.lines.toList.map (·.toList))) }

/-- The JSON form of a map.  Missing parts are left out. -/
def toJson (map : SourceMap) : Json :=
  .object
    ([("version", .nat 3)] ++
      (map.file.map fun file => ("file", Json.string file)).toList ++
      [("sources", .ofList .string map.sources)] ++
      (map.sourcesContent.map fun texts =>
        ("sourcesContent", Json.ofList .string texts)).toList ++
      [("names", .ofList .string map.names), ("mappings", .string map.mappings)])

end SourceMap

end MacroScript
