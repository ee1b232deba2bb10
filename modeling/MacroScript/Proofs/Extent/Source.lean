import MacroScript.Proofs.Blame.Compile
import MacroScript.Proofs.Extent.Expansion
import MacroScript.Proofs.Faithful

/-!
# Diagnostics point into the source

The spans that lie in a source form an extent.  The tokens of a source lie in it, and so does
what the scanner complains about.  Everything else stays within the extent of the tokens:
reading, matching, transcribing, reading again and splicing.  So whatever is wrong with a
source, its diagnostic points at a place of the source, and so do the notes of the diagnostic.
-/

namespace MacroScript

open MacroScript.Text MacroScript.Outcome MacroScript.Extent

variable {source : String} {before after : List Char} {position : Position}

/-- The span is a region of the source that begins and ends between characters. -/
structure Span.LiesIn (span : Span) (source : String) : Prop where
  ordered : span.start ≤ span.stop
  inside : span.stop ≤ source.utf8ByteSize
  starts : String.Pos.Raw.IsValid source ⟨span.start⟩
  stops : String.Pos.Raw.IsValid source ⟨span.stop⟩

/-! ## Places between characters -/

/-- The place behind a first part of the source lies between characters. -/
theorem isValid_of_split (split : source.toList = before ++ after) :
    String.Pos.Raw.IsValid source ⟨byteLength before⟩ := by
  rw [String.Pos.Raw.isValid_iff_exists_append]
  refine ⟨String.ofList before, String.ofList after, ?_, ?_⟩
  · rw [← String.ofList_append, ← split, String.ofList_toList]
  · rw [byteLength_eq_utf8Len]
    exact String.Pos.Raw.ext (String.utf8ByteSize_ofList before).symm

theorem Span.liesIn_of_isValid {span : Span} (ordered : span.start ≤ span.stop)
    (starts : String.Pos.Raw.IsValid source ⟨span.start⟩)
    (stops : String.Pos.Raw.IsValid source ⟨span.stop⟩) : span.LiesIn source :=
  ⟨ordered, stops.le_rawEndPos, starts, stops⟩

/-- The span of a word between two parts of the source lies in it. -/
theorem liesIn_of_split {word : List Char} (split : source.toList = before ++ word ++ after)
    (offset : position.offset = byteLength before) :
    (position.narrowed.spanOf (byteLength word)).LiesIn source := by
  apply Span.liesIn_of_isValid
  · exact Nat.le_add_right _ _
  · rw [Position.spanOf, Position.narrowed_offset, offset]
    exact isValid_of_split (by rw [split, List.append_assoc])
  · rw [Position.spanOf, Position.narrowed_offset, offset, ← byteLength_append]
    exact isValid_of_split split

/-- The regions of a source. -/
def Extent.ofSource (source : String) : Extent where
  Contains span := span.LiesIn source
  Macros := True
  through {first last} begins ends := by
    apply Span.liesIn_of_isValid (Span.through_start_le_stop first last) begins.starts
    rcases Nat.le_total last.stop first.start with early | late
    · rw [Span.through, Nat.max_eq_right early]
      exact begins.starts
    · rw [Span.through, Nat.max_eq_left late]
      exact ends.stops

theorem Extent.expands_ofSource (source : String) : (Extent.ofSource source).Expands where
  macros := trivial
  nowhere := by
    have start : String.Pos.Raw.IsValid source ⟨0⟩ :=
      isValid_of_split (List.nil_append source.toList).symm
    exact Span.liesIn_of_isValid (Nat.le_refl 0) start start
  behind contains line column :=
    Span.liesIn_of_isValid (Nat.le_refl _) contains.stops contains.stops

/-! ## Tokens of a source -/

/-- The scanner stays within the source.  The part of the source before the text has been
passed. -/
theorem Scan.Scans.answers {text : List Char} {answer : Except Fault (List Token)}
    (scans : Scans position text answer) (split : source.toList = before ++ text)
    (offset : position.offset = byteLength before) :
    (Extent.ofSource source).Answers (Extent.ofSource source).ContainsTokens answer := by
  have place {position : Position} {before : List Char} (gap after : List Char)
      (offset : position.offset = byteLength before) :
      (position.behind gap after).offset = byteLength (before ++ gap) := by
    rw [Position.behind_offset, offset, byteLength_append]
  induction scans generalizing before with
  | @finish position gap trivia =>
    have word : source.toList = before ++ gap ++ [] ++ [] := by simpa using split
    intro token mem
    obtain rfl := List.mem_singleton.mp mem
    exact liesIn_of_split word (place gap [] offset)
  | @word position gap word rest kind answer trivia nonempty notEnd later ih =>
    have parts : source.toList = before ++ gap ++ word ++ rest := by simpa using split
    have contains := liesIn_of_split parts (place gap (word ++ rest) offset)
    apply (ih parts (place word rest (place gap (word ++ rest) offset))).map
    intro others othersContain
    exact List.forall_mem_cons.mpr ⟨contains, othersContain⟩
  | @complain position gap word rest problem trivia nonempty =>
    have parts : source.toList = before ++ gap ++ word ++ rest := by simpa using split
    have contains := liesIn_of_split parts (place gap (word ++ rest) offset)
    exact containsFault_malformed contains _

/-! ## Units -/

/-- Reading a source stays within it, and so do the calls that were read. -/
theorem bounds_readProgram (source : String) :
    (Extent.ofSource source).BoundsSession
      (fun program => (Extent.ofSource source).ContainsCalls (Leaf.ofProgram program))
      (Session.readProgram source) := by
  have answers : (Extent.ofSource source).Answers (Extent.ofSource source).ContainsTokens
      (tokenize source) := (scans_tokenize source).answers (List.nil_append _).symm rfl
  unfold Session.readProgram
  cases scanned : tokenize source with
  | error fault =>
    rw [scanned] at answers
    exact .throw answers
  | ok tokens =>
    rw [scanned] at answers
    apply Stays.bind (boundsSession_read_program (expands_ofSource source) answers [] none)
    rintro ⟨program, state⟩ calls
    exact .pure calls

theorem bounds_expandSource (options : CompileOptions) (source : String) :
    (Extent.ofSource source).BoundsSession (fun _ => True) (expandSource options source) :=
  (bounds_readProgram source).bind fun _ calls =>
    bounds_compile (expands_ofSource source) options calls

theorem bounds_compileUnit (options : CompileOptions) (source : String) :
    (Extent.ofSource source).BoundsSession (fun _ => True) (compileUnit options source) := by
  intro session known
  have bounds := bounds_expandSource options source session known
  simp only [compileUnit, bind, EStateM.bind]
  cases run : expandSource options source session with
  | error fault after => rwa [run] at bounds
  | ok program after =>
    rw [run] at bounds
    obtain ⟨read, start, -, compiled⟩ := bind_eq_ok_iff.mp run
    have prints : ∃ printed, generate options program (some source) = .ok printed :=
      (print_isOk_iff program _).mpr (macroFree_compile compiled)
    obtain ⟨printed, generated⟩ := prints
    simp only [generated]
    exact ⟨bounds.1, trivial⟩

/-- Whatever is wrong with a source, the diagnostic points at a region of the source, and so does
each of its notes. -/
theorem compileSource_points_into_source {options : CompileOptions} {source : String}
    {diagnostic : Diagnostic} (run : compileSource options source = .error diagnostic) :
    (∃ span, diagnostic.span = some span ∧ span.LiesIn source) ∧
      ∀ note ∈ diagnostic.notes, note.span.LiesIn source := by
  have bounds := bounds_compileUnit options source {} (.empty trivial)
  have settled := settled_compileUnit options source Session.Registered.empty
  unfold compileSource at run
  revert bounds
  generalize compileUnit options source {} = outcome at settled run
  cases settled with
  | ok registered grows _ => cases run
  | @error fault after external =>
    cases run
    rintro ⟨-, contains⟩
    obtain ⟨span, place⟩ := contains.placed external
    exact ⟨⟨span, place, contains.span span place⟩, contains.notes⟩

/-- The expansion of the inner call assigns to a call, with tokens from its template, from the
template of the outer macro and from the outer call. -/
def assignedCall : String :=
  "macro bind \x7b ($e:expr) => \x7b let $e = 'é'; \x7d \x7d " ++
    "macro outer \x7b ($e:expr) => \x7b bind($e + 'é') \x7d \x7d outer(1);"

/-- The complaint about `assignedCall` runs from the template of one macro to the arguments of the
last call, and its note points at the template of the other macro. -/
theorem compileSource_assignedCall :
    ∃ diagnostic span note, compileSource {} assignedCall = .error diagnostic ∧
      (diagnostic.span = some span ∧ span = ⟨28, 103, 1, 28⟩ ∧ span.LiesIn assignedCall) ∧
        note ∈ diagnostic.notes ∧ note.span = ⟨76, 91, 1, 75⟩ ∧ note.span.LiesIn assignedCall := by
  let places : Except Diagnostic Printed → Option Span × List Span
    | .error diagnostic => (diagnostic.span, diagnostic.notes.map Note.span)
    | .ok _ => (none, [])
  have seen : places (compileSource {} assignedCall) =
      (some ⟨28, 103, 1, 28⟩, [⟨76, 91, 1, 75⟩]) := by
    decide +kernel
  cases run : compileSource {} assignedCall with
  | ok printed =>
    rw [run] at seen
    cases seen
  | error diagnostic =>
    rw [run] at seen
    obtain ⟨place, notes⟩ := Prod.mk.inj seen
    obtain ⟨⟨span, found, inside⟩, noted⟩ := compileSource_points_into_source run
    obtain rfl := Option.some.inj (found.symm.trans place)
    have noteMem : ⟨76, 91, 1, 75⟩ ∈ diagnostic.notes.map Note.span := by
      rw [notes]
      exact List.mem_cons_self
    obtain ⟨note, mem, same⟩ := List.mem_map.mp noteMem
    exact ⟨diagnostic, _, note, rfl, ⟨found, rfl, inside⟩, mem, same, noted note mem⟩

end MacroScript
