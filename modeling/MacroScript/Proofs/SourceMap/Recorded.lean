import MacroScript.Printing
import MacroScript.Proofs.SourceMap.Decoding

/-!
# Segments stand for marks

Every segment of a map that is built from marks stands for one of them: it is on the line and at
the column of the mark, refers to its span, and has its name if it has one.  So a segment is made of
the numbers of its mark and of the number of a name, and the map is read back if these are small
enough to be encoded.
-/

namespace MacroScript

/-- The segment of a line stands for a mark. -/
structure Segment.StandsFor (segment : Segment) (names : Array String) (line : Nat)
    (place : Item.Placed) : Prop where
  line : place.line = line
  column : place.column = segment.column
  sourceLine : place.span.line = segment.sourceLine + 1
  sourceColumn : place.span.column = segment.sourceColumn
  name : ∀ number : Nat, segment.name = some number →
    ∃ text, names[number]? = some text ∧ place.name = some text

theorem Segment.StandsFor.mono {segment : Segment} {names larger : Array String} {line : Nat}
    {place : Item.Placed} (stands : segment.StandsFor names line place)
    (kept : ∀ (number : Nat) (text : String), names[number]? = some text →
      larger[number]? = some text) :
    segment.StandsFor larger line place :=
  { stands with
    name := by
      intro number named
      obtain ⟨text, known, same⟩ := stands.name number named
      exact ⟨text, kept number text known, same⟩ }

namespace MapBuilder

variable {segments : Array Segment} {segment : Segment} {places : List Item.Placed}

/-- All segments stand for marks among the places. -/
def Records (builder : MapBuilder) (places : List Item.Placed) : Prop :=
  ∀ (line : Nat) (segments : Array Segment), builder.lines[line]? = some segments →
    ∀ segment ∈ segments, ∃ place ∈ places, segment.StandsFor builder.names line place

theorem records_empty (places : List Item.Placed) : ({} : MapBuilder).Records places := by
  intro line segments found
  simp at found

/-! ## Adding a segment -/

theorem mem_addSegment {found : Segment} (mem : found ∈ addSegment segments segment) :
    found ∈ segments ∨ found = segment := by
  unfold addSegment at mem
  split at mem
  · split at mem
    · split at mem
      · rcases Array.mem_push.mp mem with old | new
        · rw [← Array.mem_toList_iff, Array.toList_pop] at old
          exact .inl (Array.mem_toList_iff.mp (List.dropLast_subset _ old))
        · exact .inr new
      · exact .inl mem
    · exact Array.mem_push.mp mem
  · exact Array.mem_push.mp mem

/-- New lines are empty. -/
theorem mem_of_mem_padded {lines : Array (Array Segment)} {room line : Nat}
    (found : (padded lines room)[line]? = some segments) (mem : segment ∈ segments) :
    lines[line]? = some segments := by
  rw [padded, Array.getElem?_append] at found
  split at found
  · exact found
  · rw [Array.getElem?_replicate] at found
    split at found
    · obtain rfl := Option.some.inj found
      exact absurd mem (Array.not_mem_empty segment)
    · cases found

/-! ## Names -/

/-- Names keep their numbers when another one is added. -/
theorem getElem?_intern {names : Array String} {number : Nat} {text : String} (name : String)
    (known : names[number]? = some text) : (intern names name).1[number]? = some text := by
  unfold intern
  split
  · exact known
  · obtain ⟨inside, _⟩ := Array.getElem?_eq_some_iff.mp known
    rw [Array.getElem?_push_lt inside, ← known, Array.getElem?_eq_getElem]

theorem getElem?_intern_self (names : Array String) (name : String) :
    (intern names name).1[(intern names name).2]? = some name := by
  unfold intern
  split
  · rename_i number found
    obtain ⟨inside, same, _⟩ := Array.findIdx?_eq_some_iff_getElem.mp found
    rw [Array.getElem?_eq_getElem inside, beq_iff_eq.mp same]
  · exact Array.getElem?_push_size

/-! ## Marks -/

/-- The names after a mark, and the number of its own name. -/
theorem add_eq (builder : MapBuilder) (place : Item.Placed) (onLine : place.span.line ≠ 0) :
    ∃ names number, builder.add place.line place.column place.span place.name =
        { lines := (padded builder.lines place.line).modify place.line
            (addSegment · ⟨place.column, place.span.line - 1, place.span.column, number⟩), names } ∧
      (∀ (old : Nat) (text : String), builder.names[old]? = some text → names[old]? = some text) ∧
        ∀ new : Nat, number = some new →
          ∃ text, names[new]? = some text ∧ place.name = some text := by
  unfold add
  rw [if_neg onLine]
  cases named : place.name with
  | none => exact ⟨builder.names, none, rfl, fun _ _ known => known, nofun⟩
  | some text =>
    refine ⟨(intern builder.names text).1, some (intern builder.names text).2, rfl,
      fun _ _ known => getElem?_intern text known, ?_⟩
    rintro _ ⟨⟩
    exact ⟨text, getElem?_intern_self builder.names text, rfl⟩

theorem Records.add {builder : MapBuilder} (records : builder.Records places) {place : Item.Placed}
    (mem : place ∈ places) :
    (builder.add place.line place.column place.span place.name).Records places := by
  by_cases nowhere : place.span.line = 0
  · unfold MapBuilder.add
    rwa [if_pos nowhere]
  · obtain ⟨names, number, added, kept, named⟩ := builder.add_eq place nowhere
    have former : ∀ (line : Nat) (segments : Array Segment),
        (padded builder.lines place.line)[line]? = some segments → ∀ segment ∈ segments,
          ∃ place ∈ places, segment.StandsFor names line place := by
      intro line segments found segment segmentMem
      obtain ⟨other, otherMem, stands⟩ :=
        records line segments (mem_of_mem_padded found segmentMem) segment segmentMem
      exact ⟨other, otherMem, stands.mono kept⟩
    rw [added]
    intro line segments found segment segmentMem
    simp only [Array.getElem?_modify] at found
    split at found
    · rename_i here
      subst here
      obtain ⟨before, beforeFound, rfl⟩ := Option.map_eq_some_iff.mp found
      rcases mem_addSegment segmentMem with old | rfl
      · exact former _ before beforeFound segment old
      · exact ⟨place, mem, rfl, rfl, by simp only; omega, rfl, named⟩
    · exact former line segments found segment segmentMem

theorem records_ofPlaces (places : List Item.Placed) : (ofPlaces places).Records places := by
  -- The marks still to come stand among all of them.
  suffices run : ∀ later : List Item.Placed, (∀ place ∈ later, place ∈ places) →
      ∀ builder : MapBuilder, builder.Records places →
        (later.foldl (fun builder place =>
          builder.add place.line place.column place.span place.name) builder).Records places from
    run places (fun _ mem => mem) {} (records_empty places)
  intro later
  induction later with
  | nil => exact fun _ builder records => records
  | cons place rest ih =>
    intro among builder records
    obtain ⟨mem, others⟩ := List.forall_mem_cons.mp among
    exact ih others _ (records.add mem)

/-! ## Reading marks back -/

/-- The numbers of a mark are small enough to be encoded, as all numbers of 32 bits are. -/
structure Encodable (place : Item.Placed) : Prop where
  column : place.column < 2 ^ 63
  sourceLine : place.span.line ≤ 2 ^ 63
  sourceColumn : place.span.column < 2 ^ 63

theorem fits_ofPlaces (encodable : ∀ place ∈ places, Encodable place)
    (named : (ofPlaces places).names.size ≤ 2 ^ 63) :
    ∀ segments ∈ (ofPlaces places).lines, ∀ segment ∈ segments, segment.Fits := by
  intro segments segmentsMem segment mem
  obtain ⟨line, found⟩ := Array.mem_iff_getElem?.mp segmentsMem
  obtain ⟨place, placeMem, stands⟩ := records_ofPlaces places line segments found segment mem
  obtain ⟨column, sourceLine, sourceColumn⟩ := encodable place placeMem
  rw [stands.column] at column
  rw [stands.sourceLine] at sourceLine
  rw [stands.sourceColumn] at sourceColumn
  refine ⟨column, by omega, sourceColumn, ?_⟩
  intro number known
  obtain ⟨text, listed, -⟩ := stands.name number known
  obtain ⟨inside, -⟩ := Array.getElem?_eq_some_iff.mp listed
  exact Nat.lt_of_lt_of_le inside named

/-- Lines do not disappear, and a mark on a line of the source has one. -/
theorem size_lines_add (builder : MapBuilder) (place : Item.Placed) :
    builder.lines.size ≤ (builder.add place.line place.column place.span place.name).lines.size ∧
      (place.span.line ≠ 0 →
        0 < (builder.add place.line place.column place.span place.name).lines.size) := by
  by_cases nowhere : place.span.line = 0
  · simp [add, nowhere]
  · obtain ⟨names, number, added, -⟩ := builder.add_eq place nowhere
    simp only [added, Array.size_modify, padded, Array.size_append, Array.size_replicate]
    omega

theorem lines_ofPlaces_ne_empty (recorded : ∃ place ∈ places, place.span.line ≠ 0) :
    (ofPlaces places).lines ≠ #[] := by
  suffices run : ∀ (later : List Item.Placed) (builder : MapBuilder),
      (0 < builder.lines.size ∨ ∃ place ∈ later, place.span.line ≠ 0) →
        0 < (later.foldl (fun builder place =>
          builder.add place.line place.column place.span place.name) builder).lines.size from
    Array.ne_empty_of_size_pos (run places {} (.inr recorded))
  intro later
  induction later with
  | nil => simp
  | cons place rest ih =>
    intro builder start
    obtain ⟨kept, new⟩ := builder.size_lines_add place
    apply ih
    rcases start with old | ⟨other, mem, onLine⟩
    · exact .inl (Nat.lt_of_lt_of_le old kept)
    · rcases List.mem_cons.mp mem with rfl | mem
      · exact .inl (new onLine)
      · exact .inr ⟨other, mem, onLine⟩

end MapBuilder

/-- The mappings of a map are the segments that were recorded for any marks, line by line, if one of
the marks lies on a line of the source. -/
theorem decode?_ofPlaces {places : List Item.Placed}
    (encodable : ∀ place ∈ places, MapBuilder.Encodable place)
    (named : (MapBuilder.ofPlaces places).names.size ≤ 2 ^ 63)
    (recorded : ∃ place ∈ places, place.span.line ≠ 0) (file : Option String) (sourceName : String)
    (content : Option String) :
    (SourceMap.ofBuilder (.ofPlaces places) file sourceName content).decode? =
      some ((MapBuilder.ofPlaces places).lines.toList.map fun segments =>
        segments.toList.map fun segment =>
          { column := segment.column
            source := 0
            sourceLine := segment.sourceLine
            sourceColumn := segment.sourceColumn
            name := segment.name }) :=
  SourceMap.decode?_ofBuilder (MapBuilder.fits_ofPlaces encodable named)
    (MapBuilder.lines_ofPlaces_ne_empty recorded) file sourceName content

/-- Two marks on a line, the second one without a name, then an empty line, a mark that goes back
to a smaller column of the source, and one on no line of the source. -/
def scatteredMarks : List Item.Placed :=
  [⟨0, 0, ⟨0, 3, 1, 0⟩, some "foo"⟩, ⟨0, 4, ⟨4, 5, 1, 4⟩, none⟩,
    ⟨2, 2, ⟨10, 13, 2, 2⟩, some "foo"⟩, ⟨2, 9, .nowhere, some "bar"⟩]

theorem decode?_scatteredMarks :
    (SourceMap.ofBuilder (.ofPlaces scatteredMarks) none "input.js" none).mappings =
        "AAAAA,IAAI;;EACFA" ∧
      (SourceMap.ofBuilder (.ofPlaces scatteredMarks) none "input.js" none).decode? =
        some [[⟨0, 0, 0, 0, some 0⟩, ⟨4, 0, 0, 4, none⟩], [], [⟨2, 0, 1, 2, some 0⟩]] := by
  have encodable : ∀ place ∈ scatteredMarks, MapBuilder.Encodable place := by
    intro place mem
    have small : place.column < 2 ^ 63 ∧ place.span.line ≤ 2 ^ 63 ∧ place.span.column < 2 ^ 63 := by
      revert place
      decide
    exact ⟨small.1, small.2.1, small.2.2⟩
  have read := decode?_ofPlaces encodable (by decide +kernel)
    ⟨_, List.mem_cons_self .., by decide⟩ none "input.js" none
  refine ⟨by decide +kernel, read.trans ?_⟩
  decide +kernel

end MacroScript
