import MacroScript.Proofs.SourceMap.Vlq
import MacroScript.SourceMap

/-!
# Source maps read back

A reader of source maps knows the format only: lines end with a semicolon, segments with a comma,
the fields of a segment are numbers relative to those before.  What it finds in the text of
segments are these segments, line by line, as long as all fields are below `2 ^ 63`.
-/

namespace MacroScript

variable {reader : MapReader} {segment : Segment} {segments : List Segment}

/-! ## Reading -/

/-- A segment as a reader finds it. -/
structure Mapping where
  column : Nat
  source : Nat
  sourceLine : Nat
  sourceColumn : Nat
  name : Option Nat
deriving DecidableEq, Repr

/-- A reader of source maps, with the fields that the next segment is relative to. -/
structure MapReader where
  column : Nat := 0
  source : Nat := 0
  fields : MapFields := {}

namespace MapReader

/-- A field that is given relative to its former value.  It is not negative. -/
def moved? (former : Nat) (change : Int) : Option Nat :=
  Int.toNat? (former + change)

/-- Read a segment, with or without a name. -/
def segment? (reader : MapReader) (text : List Char) : Option Mapping := do
  match ← Vlq.decodeFrom 0 0 text with
  | [column, source, line, sourceColumn] =>
    return {
      column := ← moved? reader.column column
      source := ← moved? reader.source source
      sourceLine := ← moved? reader.fields.sourceLine line
      sourceColumn := ← moved? reader.fields.sourceColumn sourceColumn
      name := none }
  | [column, source, line, sourceColumn, name] =>
    return {
      column := ← moved? reader.column column
      source := ← moved? reader.source source
      sourceLine := ← moved? reader.fields.sourceLine line
      sourceColumn := ← moved? reader.fields.sourceColumn sourceColumn
      name := some (← moved? reader.fields.name name) }
  | _ => none

/-- The reader behind a segment. -/
def after (reader : MapReader) (mapping : Mapping) : MapReader where
  column := mapping.column
  source := mapping.source
  fields := ⟨mapping.sourceLine, mapping.sourceColumn, mapping.name.getD reader.fields.name⟩

/-- Read the segments of a line. -/
def segments? (reader : MapReader) : List (List Char) → Option (List Mapping × MapReader)
  | [] => some ([], reader)
  | text :: rest => do
    let mapping ← reader.segment? text
    let (mappings, final) ← (reader.after mapping).segments? rest
    return (mapping :: mappings, final)

/-- Read a line, which may have no segments.  Columns begin anew. -/
def line? (reader : MapReader) (text : List Char) : Option (List Mapping × MapReader) :=
  let start := { reader with column := 0 }
  if text.isEmpty then some ([], start) else start.segments? (text.splitOn ',')

def lines? (reader : MapReader) : List (List Char) → Option (List (List Mapping))
  | [] => some []
  | text :: rest => do
    let (mappings, next) ← reader.line? text
    return mappings :: (← next.lines? rest)

end MapReader

/-- The mappings of every line of a map. -/
def SourceMap.decode? (map : SourceMap) : Option (List (List Mapping)) :=
  ({} : MapReader).lines? (map.mappings.toList.splitOn ';')

/-! ## Segments -/

namespace Segment

/-- What a reader finds for a segment. -/
def mapping (segment : Segment) : Mapping where
  column := segment.column
  source := 0
  sourceLine := segment.sourceLine
  sourceColumn := segment.sourceColumn
  name := segment.name

/-- The fields are numbers that can be subtracted from each other in 64 bits. -/
structure Fits (segment : Segment) : Prop where
  column : segment.column < 2 ^ 63
  sourceLine : segment.sourceLine < 2 ^ 63
  sourceColumn : segment.sourceColumn < 2 ^ 63
  name : ∀ number ∈ segment.name, number < 2 ^ 63

end Segment

/-- The fields that segments are relative to. -/
structure MapReader.Fits (reader : MapReader) : Prop where
  column : reader.column < 2 ^ 63
  source : reader.source = 0
  sourceLine : reader.fields.sourceLine < 2 ^ 63
  sourceColumn : reader.fields.sourceColumn < 2 ^ 63
  name : reader.fields.name < 2 ^ 63

theorem decodeFrom_relative {current former : Nat} (fits : current < 2 ^ 63)
    (formerFits : former < 2 ^ 63) (rest : List Char) :
    Vlq.decodeFrom 0 0 ((relative current former).toList ++ rest) =
      (Vlq.decodeFrom 0 0 rest).map (((current : Int) - former) :: ·) := by
  have same : (Int64.ofInt ((current : Int) - former)).toInt = (current : Int) - former :=
    Int64.toInt_ofInt_of_le (by omega) (by omega)
  have notLeast : Int64.ofInt ((current : Int) - former) ≠ Int64.minValue := by
    intro least
    rw [least, Int64.toInt_minValue] at same
    omega
  rw [relative, Vlq.decodeFrom_encode notLeast, same]

theorem MapReader.moved?_relative (current former : Nat) :
    moved? former ((current : Int) - former) = some current := by
  have sum : (former : Int) + ((current : Int) - former) = current := by omega
  rw [moved?, sum]
  rfl

/-- A segment is read back relative to the same fields. -/
theorem MapReader.segment?_encode (readerFits : reader.Fits) (fits : segment.Fits) :
    reader.segment? (segment.encode reader.column reader.fields).toList = some segment.mapping := by
  rcases segment with ⟨column, sourceLine, sourceColumn, name⟩
  have zero : Vlq.encode 0 = relative 0 reader.source := by
    rw [readerFits.source]
    rfl
  have sourceFits : reader.source < 2 ^ 63 := by
    rw [readerFits.source]
    decide
  have fields (last : List Char) : Vlq.decodeFrom 0 0
      ((relative column reader.column).toList ++ ((relative 0 reader.source).toList ++
        ((relative sourceLine reader.fields.sourceLine).toList ++
          ((relative sourceColumn reader.fields.sourceColumn).toList ++ last)))) =
      (Vlq.decodeFrom 0 0 last).map ([(column : Int) - reader.column,
        ((0 : Nat) : Int) - reader.source, (sourceLine : Int) - reader.fields.sourceLine,
        (sourceColumn : Int) - reader.fields.sourceColumn] ++ ·) := by
    rw [decodeFrom_relative fits.column readerFits.column,
      decodeFrom_relative (by decide) sourceFits,
      decodeFrom_relative fits.sourceLine readerFits.sourceLine,
      decodeFrom_relative fits.sourceColumn readerFits.sourceColumn]
    cases Vlq.decodeFrom 0 0 last <;> rfl
  have home : moved? reader.source (-(reader.source : Int)) = some 0 := by
    simpa using moved?_relative 0 reader.source
  cases name with
  | none =>
    have read := fields []
    rw [List.append_nil] at read
    simp [segment?, Segment.encode, zero, read, Vlq.decodeFrom_nil, moved?_relative, home,
      Segment.mapping]
  | some number =>
    have read := fields (relative number reader.fields.name).toList
    have last := decodeFrom_relative (fits.name number rfl) readerFits.name []
    rw [List.append_nil] at last
    simp [segment?, Segment.encode, zero, read, last, Vlq.decodeFrom_nil, moved?_relative, home,
      Segment.mapping]

/-! ## Lines -/

theorem MapReader.Fits.after (readerFits : reader.Fits) (fits : segment.Fits) :
    (reader.after segment.mapping).Fits where
  column := fits.column
  source := rfl
  sourceLine := fits.sourceLine
  sourceColumn := fits.sourceColumn
  name := by
    rcases segment with ⟨column, sourceLine, sourceColumn, name⟩
    cases name with
    | none => exact readerFits.name
    | some number => exact fits.name number rfl

/-- The segments of a line are read back, and the reader is then where the writer was. -/
theorem MapReader.segments?_encodeLine (readerFits : reader.Fits)
    (fits : ∀ segment ∈ segments, segment.Fits) :
    ∃ final : MapReader, final.Fits ∧
      final.fields = (Segment.encodeLine reader.column reader.fields segments).2 ∧
        reader.segments?
            ((Segment.encodeLine reader.column reader.fields segments).1.map String.toList) =
          some (segments.map Segment.mapping, final) := by
  induction segments generalizing reader with
  | nil => exact ⟨reader, readerFits, rfl, rfl⟩
  | cons segment rest ih =>
    obtain ⟨first, others⟩ := List.forall_mem_cons.mp fits
    obtain ⟨final, finalFits, fields, read⟩ := ih (readerFits.after first) others
    refine ⟨final, finalFits, fields, ?_⟩
    change (reader.after segment.mapping).segments?
      ((Segment.encodeLine segment.column (segment.fieldsAfter reader.fields) rest).1.map
        String.toList) = _ at read
    simp [Segment.encodeLine, segments?, segment?_encode readerFits first, read]

theorem mem_intercalate {separator c : Char} {texts : List (List Char)}
    (mem : c ∈ [separator].intercalate texts) : c = separator ∨ ∃ text ∈ texts, c ∈ text := by
  induction texts with
  | nil => simp at mem
  | cons first rest ih =>
    cases rest with
    | nil => exact .inr ⟨first, by simp, by simpa using mem⟩
    | cons second others =>
      rw [List.intercalate_cons_cons, List.mem_append, List.mem_append,
        List.mem_singleton] at mem
      rcases mem with (here | same) | later
      · exact .inr ⟨first, by simp, here⟩
      · exact .inl same
      · rcases ih later with same | ⟨text, textMem, inText⟩
        · exact .inl same
        · exact .inr ⟨text, List.mem_cons_of_mem _ textMem, inText⟩

theorem intercalate_ne_nil (separator : Char) {first : List Char} (written : first ≠ [])
    (rest : List (List Char)) : [separator].intercalate (first :: rest) ≠ [] := by
  cases rest with
  | nil => simpa using written
  | cons second others => simp [List.intercalate_cons_cons]

/-- The texts of segments are made of digits. -/
theorem Segment.forall_mem_encode (segment : Segment) (column : Nat) (fields : MapFields) :
    ∀ c ∈ (segment.encode column fields).toList, c ∈ Vlq.alphabet := by
  have number (current former : Nat) : ∀ c ∈ (relative current former).toList, c ∈ Vlq.alphabet :=
    fun _ => Vlq.mem_alphabet_of_mem_encode
  rw [encode, String.toList_append, String.toList_append, String.toList_append,
    String.toList_append, List.forall_mem_append, List.forall_mem_append, List.forall_mem_append,
    List.forall_mem_append]
  refine ⟨⟨⟨⟨number _ _, fun _ => Vlq.mem_alphabet_of_mem_encode⟩, number _ _⟩, number _ _⟩, ?_⟩
  cases segment.name with
  | none => simp
  | some name => exact number _ _

theorem Segment.forall_mem_encodeLine (column : Nat) (fields : MapFields)
    (segments : List Segment) :
    ∀ text ∈ (encodeLine column fields segments).1.map String.toList, ∀ c ∈ text,
      c ∈ Vlq.alphabet := by
  induction segments generalizing column fields with
  | nil => simp [encodeLine]
  | cons segment rest ih =>
    rw [encodeLine, List.map_cons, List.forall_mem_cons]
    exact ⟨segment.forall_mem_encode column fields, ih _ _⟩

theorem Segment.encode_ne_nil (segment : Segment) (column : Nat) (fields : MapFields) :
    (segment.encode column fields).toList ≠ [] := by
  have written : (Vlq.encode 0).toList ≠ [] := by
    decide +kernel
  intro nothing
  simp only [encode, String.toList_append, List.append_eq_nil_iff] at nothing
  exact written nothing.1.1.1.2

/-- A line is read back. -/
theorem MapReader.line?_encodeLine (readerFits : reader.Fits)
    (fits : ∀ segment ∈ segments, segment.Fits) :
    ∃ final : MapReader, final.Fits ∧
      final.fields = (Segment.encodeLine 0 reader.fields segments).2 ∧
        reader.line? (",".intercalate (Segment.encodeLine 0 reader.fields segments).1).toList =
          some (segments.map Segment.mapping, final) := by
  have startFits : ({ reader with column := 0 } : MapReader).Fits :=
    { readerFits with column := Nat.two_pow_pos 63 }
  obtain ⟨final, finalFits, fields, read⟩ := segments?_encodeLine startFits fits
  refine ⟨final, finalFits, fields, ?_⟩
  rw [line?, String.toList_intercalate]
  cases segments with
  | nil => exact read
  | cons segment rest =>
    have free : ∀ text ∈ (Segment.encodeLine 0 reader.fields (segment :: rest)).1.map
        String.toList, ',' ∉ text := fun text mem inText =>
      absurd (Segment.forall_mem_encodeLine _ _ _ text mem ',' inText) (by decide)
    have written : [','].intercalate ((Segment.encodeLine 0 reader.fields
        (segment :: rest)).1.map String.toList) ≠ [] :=
      intercalate_ne_nil ',' (segment.encode_ne_nil 0 reader.fields) _
    have comma : ",".toList = [','] := rfl
    simp only [comma, List.isEmpty_iff, written, if_false]
    rw [List.splitOn_intercalate ',' free (by simp [Segment.encodeLine])]
    exact read

/-- Lines are read back. -/
theorem MapReader.lines?_encodeLines {lines : List (List Segment)} (readerFits : reader.Fits)
    (fits : ∀ line ∈ lines, ∀ segment ∈ line, segment.Fits) :
    reader.lines? ((Segment.encodeLines reader.fields lines).map String.toList) =
      some (lines.map (List.map Segment.mapping)) := by
  induction lines generalizing reader with
  | nil => rfl
  | cons line rest ih =>
    obtain ⟨first, others⟩ := List.forall_mem_cons.mp fits
    obtain ⟨final, finalFits, fields, read⟩ := line?_encodeLine readerFits first
    have later := ih finalFits others
    rw [fields] at later
    simp only [Segment.encodeLines, List.map_cons, lines?, read, later, Option.bind_eq_bind,
      Option.bind_some, Option.pure_def]

theorem Segment.semicolon_not_mem_encodeLines (fields : MapFields) (lines : List (List Segment)) :
    ∀ text ∈ (encodeLines fields lines).map String.toList, ';' ∉ text := by
  induction lines generalizing fields with
  | nil => simp [encodeLines]
  | cons line rest ih =>
    rw [encodeLines, List.map_cons, List.forall_mem_cons]
    refine ⟨?_, ih _⟩
    intro mem
    rw [String.toList_intercalate] at mem
    rcases mem_intercalate mem with isComma | ⟨text, textMem, inText⟩
    · cases isComma
    · exact absurd (forall_mem_encodeLine _ _ _ text textMem ';' inText) (by decide)

/-- The mappings of a map are the segments it was built from. -/
theorem SourceMap.decode?_ofBuilder {builder : MapBuilder}
    (fits : ∀ segments ∈ builder.lines, ∀ segment ∈ segments, segment.Fits)
    (recorded : builder.lines ≠ #[]) (file : Option String) (sourceName : String)
    (content : Option String) :
    (SourceMap.ofBuilder builder file sourceName content).decode? =
      some (builder.lines.toList.map fun segments => segments.toList.map Segment.mapping) := by
  have lineFits : ∀ line ∈ builder.lines.toList.map Array.toList, ∀ segment ∈ line,
      segment.Fits := by
    intro line mem segment inLine
    obtain ⟨segments, segmentsMem, rfl⟩ := List.mem_map.mp mem
    exact fits segments (Array.mem_toList_iff.mp segmentsMem) segment
      (Array.mem_toList_iff.mp inLine)
  have start : ({} : MapReader).Fits := by
    constructor <;> decide
  have lines := MapReader.lines?_encodeLines start lineFits
  rw [List.map_map] at lines
  have written : (Segment.encodeLines {} (builder.lines.toList.map Array.toList)).map
      String.toList ≠ [] := by
    intro nothing
    cases found : builder.lines.toList with
    | nil => exact recorded (Array.toList_eq_nil_iff.mp found)
    | cons first rest => simp [found, Segment.encodeLines] at nothing
  have semicolon : ";".toList = [';'] := rfl
  rw [decode?, ofBuilder, String.toList_intercalate, semicolon,
    List.splitOn_intercalate ';' (Segment.semicolon_not_mem_encodeLines _ _) written]
  exact lines

end MacroScript
