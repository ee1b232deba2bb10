import MacroScript.Proofs.Hygiene.Mention
import MacroScript.Proofs.Hygiene.Reading
import MacroScript.Proofs.Scanning

/-!
# Reading a source

A source is read without hygiene and in a scope of its own.  The session stays sound, and
the calls of the program are sound in it.

What is written outside of macro declarations does not lie in one: the spans of ordinary
bindings and of the arguments of calls are disjoint from the spans of declarations.
-/

namespace MacroScript

open MacroScript.Grammar MacroScript.Outcome

namespace Cursor

/-- A cursor has the tokens of its list, except an end of input. -/
theorem exists_take_ofTokens (tokens : List Token) :
    ∃ count, (ofTokens tokens).tokens = (tokens.take count).toArray := by
  unfold ofTokens
  split
  · exact ⟨0, rfl⟩
  · split
    · exact ⟨tokens.length - 1, by rw [List.dropLast_eq_take]⟩
    · exact ⟨tokens.length, by rw [List.take_length]⟩

theorem getElem?_of_lt {tokens : List Token} {index : Nat}
    (inside : index < (ofTokens tokens).tokens.size) :
    tokens[index]? = some ((ofTokens tokens).tokenAt index) := by
  obtain ⟨count, taken⟩ := exists_take_ofTokens tokens
  have found : (ofTokens tokens).tokens[index]? = some ((ofTokens tokens).tokenAt index) := by
    rw [tokenAt, Array.getElem?_eq_getElem inside, Option.getD_some]
  have below : index < count := by
    rw [taken, List.size_toArray, List.length_take] at inside
    exact Nat.lt_of_lt_of_le inside (Nat.min_le_left _ _)
  rw [← found, taken, List.getElem?_toArray, List.getElem?_take_of_lt below]

end Cursor

namespace Session

variable {source : String} {session after : Session} {program : Program}

/-- A program that was read is the result of a walk over the tokens of its source. -/
theorem readProgram_eq_ok (run : readProgram source session = .ok program after) :
    ∃ tokens places final, tokenize source = .ok tokens ∧
      Walk (session.reader tokens [] none) places final ∧
        Leaf.ofProgram program = places.map Prod.snd ∧ after = final.context.session := by
  unfold readProgram at run
  cases scanned : tokenize source with
  | error fault =>
    simp only [scanned] at run
    exact absurd run throw_ne_ok
  | ok tokens =>
    simp only [scanned, bind_eq_ok_iff, pure_eq_ok_iff] at run
    obtain ⟨⟨read, state⟩, last, readRun, rfl, rfl⟩ := run
    obtain ⟨final, places, -, rfl, walk, seen⟩ := read_eq_ok yields_program readRun
    exact ⟨tokens, places, final, rfl, walk, seen, rfl⟩

/-- The tokens of a source have no colors. -/
theorem sound_reader_tokenize (sound : session.Sound) {tokens : List Token}
    (scanned : tokenize source = .ok tokens) : (session.reader tokens [] none).Sound := by
  apply sound_reader sound
  · simp
  · intro token mem
    rw [(scanned_tokenize scanned).plain token mem]
    exact GivenOut.none
  · simp

/-- Reading a source keeps a session sound, and the calls of the program are sound. -/
theorem sound_readProgram (sound : session.Sound)
    (run : readProgram source session = .ok program after) :
    after.Sound ∧ ∀ call ∈ Leaf.calls (Leaf.ofProgram program), call.Sound after := by
  obtain ⟨tokens, places, final, scanned, walk, seen, rfl⟩ := readProgram_eq_ok run
  obtain ⟨finalSound, calls⟩ := walk.sound ready_reader (sound_reader_tokenize sound scanned)
  refine ⟨finalSound.session, ?_⟩
  intro call mem
  rw [Leaf.mem_calls, seen, List.mem_map] at mem
  obtain ⟨⟨index, leaf⟩, placeMem, rfl⟩ := mem
  exact calls index call placeMem

end Session

/-! ## Ordinary source and macro declarations -/

/-- A span that lies within another. -/
def Span.Within (inner outer : Span) : Prop :=
  outer.start ≤ inner.start ∧ inner.stop ≤ outer.stop

instance (inner outer : Span) : Decidable (inner.Within outer) :=
  inferInstanceAs (Decidable (_ ∧ _))

/-- A span that lies in a macro declaration of a program. -/
def WrittenInMacro (program : Program) (span : Span) : Prop :=
  ∃ declared, Leaf.declaration declared ∈ Leaf.ofProgram program ∧ span.Within declared.span

@[simp]
theorem Identifier.applyColor?_span (identifier : Identifier) (color : Option Color) :
    (identifier.applyColor? color).span = identifier.span := by
  cases color with
  | none => rfl
  | some color =>
    rw [applyColor?, applyColor]
    split <;> rfl

section Spans

variable {tokens : List Token} {first second : Nat}
variable (scanned : Scan.Scanned 0 tokens)
include scanned

/-- A token of a cursor ends before a later one starts. -/
theorem Scan.Scanned.stop_le_start (before : first < second)
    (inside : second < (Cursor.ofTokens tokens).tokens.size) :
    ((Cursor.ofTokens tokens).tokenAt first).span.stop ≤
      ((Cursor.ofTokens tokens).tokenAt second).span.start := by
  have firstAt := Cursor.getElem?_of_lt (Nat.lt_trans before inside)
  have secondAt := Cursor.getElem?_of_lt inside
  obtain ⟨firstLt, firstEq⟩ := List.getElem?_eq_some_iff.mp firstAt
  obtain ⟨secondLt, secondEq⟩ := List.getElem?_eq_some_iff.mp secondAt
  rw [← firstEq, ← secondEq]
  exact List.pairwise_iff_getElem.mp scanned.ordered first second firstLt secondLt before

theorem Scan.Scanned.start_le_start (le : first ≤ second)
    (inside : second < (Cursor.ofTokens tokens).tokens.size) :
    ((Cursor.ofTokens tokens).tokenAt first).span.start ≤
      ((Cursor.ofTokens tokens).tokenAt second).span.start := by
  rcases Nat.eq_or_lt_of_le le with rfl | before
  · exact Nat.le_refl _
  · have firstAt := Cursor.getElem?_of_lt (Nat.lt_trans before inside)
    exact Nat.le_trans (scanned.start_le_stop _ (List.mem_of_getElem? firstAt))
      (scanned.stop_le_start before inside)

/-- A name at an index that a leaf covers does not lie in a declaration at another place. -/
theorem Scan.Scanned.outside {session : Session} {places : List Place} {final : Reader}
    (walk : Walk (session.reader tokens [] none) places final) {start : Nat}
    {declared : MacroStmt} (declaredMem : (start, Leaf.declaration declared) ∈ places)
    {place : Place} (mem : place ∈ places) (other : (start, Leaf.declaration declared) ≠ place)
    {index : Nat} (place_le : place.1 ≤ index)
    (covered : ∀ limit, MadeOf (Cursor.ofTokens tokens).tokenAt limit place → index < limit)
    (isName : ((Cursor.ofTokens tokens).tokenAt index).isName = true) :
    ¬((Cursor.ofTokens tokens).tokenAt index).span.Within declared.span := by
  obtain ⟨made, -⟩ := walk.madeOf Session.ready_reader rfl
  have reach := (walk.forward Session.ready_reader).inside
  have inside : index < (Cursor.ofTokens tokens).tokens.size :=
    Nat.lt_of_lt_of_le (covered _ (made place mem)) reach
  have startInside : start < (Cursor.ofTokens tokens).tokens.size :=
    Nat.lt_of_lt_of_le ((walk.ordered Session.ready_reader).2 _ declaredMem).2 reach
  have nonempty := scanned.nonempty _ (List.mem_of_getElem? (Cursor.getElem?_of_lt inside)) (by
    simp only [Token.isName, beq_iff_eq] at isName
    simp [Token.isEnd, isName])
  rintro ⟨startsLater, stopsEarlier⟩
  rcases walk.madeOf_of_ne Session.ready_reader rfl declaredMem mem other with
    declaredFirst | placeFirst
  · -- The declaration ends before the place, and the name does not begin before that.
    have spans : declared.span.stop ≤ ((Cursor.ofTokens tokens).tokenAt index).span.start := by
      cases declaredFirst with
      | @declaration _ last _ from_le last_lt span =>
        have lastBefore : last < index := Nat.lt_of_lt_of_le last_lt place_le
        rw [span]
        exact Nat.max_le.mpr
          ⟨scanned.stop_le_start lastBefore inside,
            scanned.start_le_start (Nat.le_of_lt (Nat.lt_of_le_of_lt from_le lastBefore)) inside⟩
    exact Nat.not_le_of_lt nonempty (Nat.le_trans stopsEarlier spans)
  · -- The name ends before the declaration begins.
    have spans := scanned.stop_le_start (covered _ placeFirst) startInside
    have begins : declared.span.start = ((Cursor.ofTokens tokens).tokenAt start).span.start := by
      cases made _ declaredMem with
      | declaration from_le last_lt span =>
        exact (congrArg Span.start span).trans (Span.through_start _ _)
    rw [begins] at startsLater
    exact Nat.not_le_of_lt nonempty (Nat.le_trans spans startsLater)

end Spans

namespace Session

variable {source : String} {session after : Session} {program : Program}

/-- An ordinary binding of a source is not written in a macro. -/
theorem not_written_of_binding (run : readProgram source session = .ok program after)
    {identifier : Identifier} (mem : Leaf.binding identifier ∈ Leaf.ofProgram program) :
    ¬WrittenInMacro program identifier.span := by
  obtain ⟨tokens, places, final, scanned, walk, seen, -⟩ := readProgram_eq_ok run
  rintro ⟨declared, declaredMem, within⟩
  rw [seen, List.mem_map] at mem declaredMem
  obtain ⟨⟨start, _⟩, startMem, rfl⟩ := declaredMem
  obtain ⟨⟨index, _⟩, indexMem, rfl⟩ := mem
  have made := (walk.madeOf ready_reader rfl).1 _ indexMem
  obtain ⟨-, isName, color, rfl⟩ := made.of_binding
  rw [Identifier.applyColor?_span] at within
  exact (scanned_tokenize scanned).outside walk startMem indexMem (by simp) (Nat.le_refl _)
    (fun limit limited => limited.of_binding.1) isName within

/-- A name among the arguments of an ordinary call is not written in a macro. -/
theorem not_written_of_argument (run : readProgram source session = .ok program after)
    {call : Invocation} (mem : Leaf.call call ∈ Leaf.ofProgram program) {token : Token}
    (tokenMem : token ∈ call.tokens) (isName : token.isName = true) :
    ¬WrittenInMacro program token.span := by
  obtain ⟨tokens, places, final, scanned, walk, seen, -⟩ := readProgram_eq_ok run
  rintro ⟨declared, declaredMem, within⟩
  rw [seen, List.mem_map] at mem declaredMem
  obtain ⟨⟨start, _⟩, startMem, rfl⟩ := declaredMem
  obtain ⟨⟨index, _⟩, indexMem, rfl⟩ := mem
  obtain ⟨offset, found⟩ := List.mem_iff_getElem?.mp tokenMem
  cases (walk.madeOf ready_reader rfl).1 _ indexMem with
  | call arguments =>
    obtain ⟨made, -, -⟩ := arguments offset token found
    rw [made] at within isName
    refine (scanned_tokenize scanned).outside walk startMem indexMem (by simp)
      (Nat.le_trans (Nat.le_add_right index 2) (Nat.le_add_right _ offset)) ?_ isName within
    intro limit limited
    cases limited with
    | call limitedArguments => exact (limitedArguments offset token found).2.2

end Session

end MacroScript
