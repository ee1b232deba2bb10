import MacroScript.Proofs.Extent.Grammar
import MacroScript.Proofs.Hygiene.Fresh
import MacroScript.Proofs.Printable
import MacroScript.Proofs.Scanning
import MacroScript.Proofs.SourceMap.Decoding
import MacroScript.Proofs.SourceMap.Places
import MacroScript.Proofs.SourceMap.Recorded

/-!
# Where the mappings of names point

A mapping with a name belongs to a name of the program that was written: it has the spelling of
the name in the source and the place of its span.  The place of the written name is the place that
the writer has counted, so the mapping points at the name exactly when no token before it goes over
the end of a line.  The only such tokens are strings that are continued on the next line.
-/

namespace MacroScript

open MacroScript.Text MacroScript.Outcome

variable {source : String} {program : Program} {span : Span}

/-! ## Places of a source -/

/-- The spans whose line and column have 32 bits.  There are no macros. -/
def Extent.narrow : Extent where
  Contains span := span.line < 4294967296 ∧ span.column < 4294967296
  Macros := False
  through begins _ := begins

theorem narrow_tokenize {tokens : List Token} (run : tokenize source = .ok tokens) :
    Extent.narrow.ContainsTokens tokens := by
  intro token mem
  obtain ⟨before, word, after, -, -, span⟩ := exists_split_of_mem_tokenize run mem
  rw [span]
  exact ⟨narrow_lt _, narrow_lt _⟩

/-- The outlines of a program that was read show all its spans and leaves, and they are arranged on
a page. -/
theorem exists_arranged_of_parse (read : parse source = .ok program) :
    ∃ (page : Extent.narrow.Page) (index : Nat),
      page.Arranged 0 index (Outline.ofStmts program.body) := by
  obtain ⟨tokens, scanned, -⟩ := except_bind_eq_ok_iff.mp read
  obtain ⟨page, -, index, contents⟩ :=
    Grammar.contents_of_parse scanned (narrow_tokenize scanned) read
  exact ⟨page, index, contents.body.arranged⟩

/-- All marks of a program that was read have lines and columns of 32 bits. -/
theorem narrow_of_mark (read : parse source = .ok program) {name : Option String}
    (mem : .mark span name ∈ Layout.programItems program) : Extent.narrow.Contains span := by
  obtain ⟨page, index, arranged⟩ := exists_arranged_of_parse read
  exact arranged.contains span ((Layout.writes_programItems program).mem_spans mem)

/-- A program that was read has no macro nodes. -/
theorem macroFree_of_parse (read : parse source = .ok program) :
    MacroFree (Leaf.ofProgram program) := by
  obtain ⟨page, index, arranged⟩ := exists_arranged_of_parse read
  intro leaf mem
  rw [Leaf.ofProgram, ← (Layout.writes_programItems program).leaves] at mem
  exact Bool.eq_false_iff.mpr (arranged.leaves leaf mem).2

/-- Behind a named mark of a layout stands a name of the program. -/
theorem exists_name_of_mark {before after : List Item}
    (split : Layout.programItems program = before ++ .mark span (some source) :: after) :
    ∃ identifier ∈ program.names, identifier.span = span ∧ identifier.originalName = source ∧
      ∃ rest, after = .token identifier.name :: rest := by
  obtain ⟨leaf, mem, identifier, named, known⟩ :=
    (Layout.writes_programItems program).exists_name split
  exact ⟨identifier, List.mem_filterMap.mpr ⟨leaf, mem, named⟩, known⟩

/-! ## Decoded maps -/

/-- The mapping has the spelling and the place that a name has in the source. -/
structure Mapping.RefersTo (mapping : Mapping) (map : SourceMap) (identifier : Identifier) :
    Prop where
  source : mapping.source = 0
  name : mapping.name.bind (map.names[·]?) = some identifier.originalName
  line : identifier.span.line = mapping.sourceLine + 1
  column : identifier.span.column = mapping.sourceColumn

section Printed

variable {options : PrintOptions}

/-- The segments of a map for a program that was read fit into an encoded map. -/
theorem fits_of_parse (read : parse source = .ok program)
    (numbered : (mapOf (Layout.programItems program) options).names.length ≤ 4294967296) :
    ∀ segments ∈ (MapBuilder.ofPlaces (Item.places (Layout.programItems program))).lines,
      ∀ segment ∈ segments, segment.Fits := by
  refine MapBuilder.fits_ofPlaces ?_ (Nat.le_trans numbered (by decide))
  intro place placeMem
  obtain ⟨before, after, split, counted⟩ := Item.exists_split_of_mem_placesFrom placeMem
  have mem : .mark place.span place.name ∈ Layout.programItems program := by
    rw [split]
    simp
  obtain ⟨line, column⟩ := narrow_of_mark read mem
  have bound := Item.counted_lt (0, 0) before (Nat.zero_lt_succ _)
  rw [counted] at bound
  exact ⟨by omega, by omega, by omega⟩

/-- A map that is read back shows the segments it was made from. -/
theorem decode?_mapOf (read : parse source = .ok program)
    (numbered : (mapOf (Layout.programItems program) options).names.length ≤ 4294967296) :
    ∃ lines, (mapOf (Layout.programItems program) options).decode? = some lines ∧
      ∀ (line : Nat) mappings, lines[line]? = some mappings → ∀ mapping ∈ mappings,
        ∃ place ∈ Item.places (Layout.programItems program), ∃ segment : Segment,
          segment.mapping = mapping ∧ segment.StandsFor
            (MapBuilder.ofPlaces (Item.places (Layout.programItems program))).names line place := by
  have fits := fits_of_parse read numbered
  have records := MapBuilder.records_ofPlaces (Item.places (Layout.programItems program))
  unfold mapOf
  generalize MapBuilder.ofPlaces (Item.places (Layout.programItems program)) = builder
    at fits records ⊢
  by_cases empty : builder.lines = #[]
  · -- Nothing was recorded: the map is read as one line without segments.
    refine ⟨[[]], ?_, ?_⟩
    · simp [SourceMap.decode?, SourceMap.ofBuilder, empty, Segment.encodeLines, MapReader.lines?,
        MapReader.line?]
    · intro line mappings found mapping mem
      cases line with
      | zero =>
        obtain rfl := Option.some.inj found
        cases mem
      | succ line => cases found
  · refine ⟨_, SourceMap.decode?_ofBuilder fits empty _ _ _, ?_⟩
    intro line mappings found mapping mem
    rw [List.getElem?_map] at found
    obtain ⟨segments, segmentsFound, rfl⟩ := Option.map_eq_some_iff.mp found
    obtain ⟨segment, segmentMem, rfl⟩ := List.mem_map.mp mem
    rw [Array.getElem?_toList] at segmentsFound
    obtain ⟨place, placeMem, stands⟩ :=
      records line segments segmentsFound segment (Array.mem_toList_iff.mp segmentMem)
    exact ⟨place, placeMem, segment, rfl, stands⟩

/-- Programs that were read are printed, and every mapping of the map that has a name refers to a
name of the program, as long as the numbers of the names have 32 bits.  This name was written behind
the items of the layout after which the place of the mapping was counted.  If the counters have room
for the written text, the mapping points at the name exactly when none of these items is a token
that goes over the end of a line. -/
theorem print_nameMappings (read : parse source = .ok program) (options : PrintOptions)
    (mapped : options.emitMap = true) :
    ∃ printed map, print program options = .ok printed ∧ printed.map = some map ∧
      (map.names.length ≤ 4294967296 → ∃ lines, map.decode? = some lines ∧
        ∀ (line : Nat) mappings, lines[line]? = some mappings → ∀ mapping ∈ mappings,
          mapping.name.isSome = true → ∃ identifier ∈ program.names,
            mapping.RefersTo map identifier ∧
              ∃ before after,
                Layout.programItems program =
                  before ++ Layout.identifierItems identifier ++ after ∧
                printed.code = Item.render before ++ identifier.name ++ Item.render after ∧
                before.foldl Item.countedAfter (0, 0) = (line, mapping.column) ∧
                (printed.code.length < 4294967296 →
                  (placeAfter 0 0 (Item.render before).toList = (line, mapping.column) ↔
                    ∀ item ∈ before, item.breaksLine = false))) := by
  refine ⟨_, _, print_of_macroFree (macroFree_of_parse read) options, if_pos mapped, ?_⟩
  intro numbered
  obtain ⟨lines, decoded, recorded⟩ := decode?_mapOf read numbered
  refine ⟨lines, decoded, ?_⟩
  intro line mappings found mapping mem hasName
  obtain ⟨place, placeMem, segment, rfl, stands⟩ := recorded line mappings found mapping mem
  obtain ⟨number, named⟩ := Option.isSome_iff_exists.mp hasName
  obtain ⟨text, known, placeName⟩ := stands.name number named
  obtain ⟨before, after, split, counted⟩ := Item.exists_split_of_mem_placesFrom placeMem
  rw [placeName] at split
  obtain ⟨identifier, identifierMem, span, spelled, rest, rfl⟩ := exists_name_of_mark split
  have place : before.foldl Item.countedAfter (0, 0) = (line, segment.mapping.column) := by
    rw [counted, stands.line, stands.column]
    rfl
  have written : Item.render (Layout.programItems program) =
      Item.render before ++ identifier.name ++ Item.render rest := by
    rw [split, Item.render_append, Item.render_cons, Item.render_cons, String.append_assoc]
    simp only [Item.text, String.empty_append]
  refine ⟨identifier, identifierMem, ⟨rfl, ?_, ?_, ?_⟩, before, rest, ?_, written, place, ?_⟩
  · rw [named, spelled, ← known, ← Array.getElem?_toList]
    rfl
  · rw [span]
    exact stands.sourceLine
  · rw [span]
    exact stands.sourceColumn
  · rw [split, Layout.identifierItems, span, spelled, List.append_assoc]
    rfl
  · intro short
    rw [written, String.length_append, String.length_append] at short
    rw [← place]
    exact Item.placeAfter_render_iff (show Item.HasRoom (0, 0) _ from ⟨by omega, by omega⟩)

end Printed

/-- A variable that is written again on the second line. -/
def usedVariable : String :=
  "let y = 1;\nf(y);"

/-- The last mapping of `usedVariable` points at the second use of its first name. -/
theorem print_usedVariable :
    ∃ program printed map lines, parse usedVariable = .ok program ∧
      print program { emitMap := true } = .ok printed ∧ printed.map = some map ∧
      map.decode? = some lines ∧ lines.map (List.map Mapping.column) = [[0, 4, 8], [0, 2]] ∧
      ∃ identifier ∈ program.names, Mapping.RefersTo ⟨2, 0, 1, 2, some 0⟩ map identifier ∧
        ∃ before after, printed.code = Item.render before ++ identifier.name ++ Item.render after ∧
          (placeAfter 0 0 (Item.render before).toList = (1, 2) ↔
            ∀ item ∈ before, item.breaksLine = false) := by
  have seen : ((parse usedVariable).toOption.bind fun program =>
      (print program { emitMap := true }).toOption.bind fun printed =>
        printed.map.map fun map => (printed.code.length, map.names.length, map.decode?)) =
      some (17, 2, some [[⟨0, 0, 0, 0, none⟩, ⟨4, 0, 0, 4, some 0⟩, ⟨8, 0, 0, 8, none⟩],
        [⟨0, 0, 1, 0, some 1⟩, ⟨2, 0, 1, 2, some 0⟩]]) := by
    decide +kernel
  obtain ⟨program, read, seen⟩ := Option.bind_eq_some_iff.mp seen
  rw [toOption_eq_some_iff] at read
  obtain ⟨printed, map, run, mapped, points⟩ :=
    print_nameMappings read { emitMap := true } rfl
  rw [run, Except.toOption, Option.bind_some, mapped, Option.map_some, Option.some.injEq,
    Prod.mk.injEq, Prod.mk.injEq] at seen
  obtain ⟨codeLength, namesLength, decoded⟩ := seen
  obtain ⟨lines, found, each⟩ := points (by rw [namesLength]; decide)
  obtain rfl := Option.some.inj (found.symm.trans decoded)
  obtain ⟨identifier, mem, refers, before, after, -, written, -, right⟩ :=
    each 1 _ rfl ⟨2, 0, 1, 2, some 0⟩ (by decide) rfl
  exact ⟨program, printed, map, _, read, run, mapped, decoded, rfl, identifier, mem, refers, before,
    after, written, right (by rw [codeLength]; decide)⟩

/-- A name behind a string that is continued on the next line. -/
def continuedString : String :=
  "'a\\\nb' + x;"

/-- The name in `continuedString` is mapped to the first line, which ends before the column of the
mapping. -/
theorem print_continuedString :
    ∃ program printed map, parse continuedString = .ok program ∧
      print program { emitMap := true } = .ok printed ∧ printed.map = some map ∧
      map.names = ["x"] ∧ map.decode? = some [[⟨0, 0, 0, 0, none⟩, ⟨9, 0, 1, 5, some 0⟩]] ∧
      ∀ before after, printed.code = before ++ after → placeAfter 0 0 before.toList ≠ (0, 9) := by
  have seen : ((parse continuedString).toOption.bind fun program =>
      (print program { emitMap := true }).toOption.bind fun printed =>
        printed.map.map fun map => (printed.code.toList, map.names, map.decode?)) =
      some ("'a\\\nb' + x;\n".toList, ["x"],
        some [[⟨0, 0, 0, 0, none⟩, ⟨9, 0, 1, 5, some 0⟩]]) := by
    decide +kernel
  obtain ⟨program, read, seen⟩ := Option.bind_eq_some_iff.mp seen
  obtain ⟨printed, run, seen⟩ := Option.bind_eq_some_iff.mp seen
  obtain ⟨map, mapped, seen⟩ := Option.map_eq_some_iff.mp seen
  rw [toOption_eq_some_iff] at read run
  obtain ⟨code, names, decoded⟩ : printed.code.toList = "'a\\\nb' + x;\n".toList ∧
      map.names = ["x"] ∧ map.decode? = _ := by
    simpa only [Prod.mk.injEq] using seen
  refine ⟨program, printed, map, read, run, mapped, names, decoded, ?_⟩
  intro before after split
  have start : before.toList = printed.code.toList.take before.toList.length := by
    rw [split, String.toList_append, List.take_left]
  have short : before.toList.length ≤ 12 := by
    have whole := congrArg List.length code
    rw [split, String.toList_append, List.length_append] at whole
    have length : "'a\\\nb' + x;\n".toList.length = 12 := by decide
    omega
  have elsewhere : ∀ length ≤ 12,
      placeAfter 0 0 ("'a\\\nb' + x;\n".toList.take length) ≠ (0, 9) := by
    decide +kernel
  rw [start, code]
  exact elsewhere _ short

end MacroScript
