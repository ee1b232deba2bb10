import MacroScript.Proofs.Extent.Grammar
import MacroScript.Proofs.Hygiene.Source
import MacroScript.Proofs.Lookahead.Statement

/-!
# Reading a longer program

A program that goes on with a macro declaration has the statements of the shorter program, and
then the declaration.  The session that it leaves is the one of the shorter program, in which
the macro was declared.
-/

namespace MacroScript

open MacroScript.Outcome

variable {word : Token} {source : String} {session after : Session} {program : Program}

namespace Grammar

variable {α β : Type} {c : Continuation} {state after : State} {declared : MacroStmt}

/-! ## Series of statements -/

/-- Running a parser over and over, within the tokens. -/
inductive Series (parser : Parser α) : State → List α → State → Prop
  | nil (state : State) : Series parser state [] state
  | cons {state middle after : State} {value : α} {values : List α}
      (within : state.cursor.peek.isEnd = false) (run : parser state = .ok value middle)
      (rest : Series parser middle values after) : Series parser state (value :: values) after

/-- Within the tokens, the parser reads at least one. -/
def Progress (parser : Parser α) : Prop :=
  ∀ ⦃state after : State⦄ ⦃value : α⦄, state.cursor.Ready → state.cursor.peek.isEnd = false →
    parser state = .ok value after →
      state.cursor.Forward after.cursor ∧ state.cursor.index < after.cursor.index

namespace Series

variable {parser : Parser α} {after : State} {values : List α}

theorem forward (series : Series parser state values after) (each : Progress parser)
    (ready : state.cursor.Ready) : state.cursor.Forward after.cursor := by
  induction series with
  | nil state => exact .refl ready
  | cons within run rest ih =>
    have step := (each ready within run).1
    exact step.trans (ih (step.ready ready))

theorem of_concat {value : α} (series : Series parser state (values ++ [value]) after) :
    ∃ middle, Series parser state values middle ∧ parser middle = .ok value after := by
  induction values generalizing state with
  | nil =>
    cases series with
    | cons within run rest =>
      cases rest
      exact ⟨_, .nil _, run⟩
  | cons first values ih =>
    cases series with
    | cons within run rest =>
      obtain ⟨middle, earlier, last⟩ := ih rest
      exact ⟨middle, .cons within run earlier, last⟩

/-- A series that ends where the shorter source does is the one of the shorter source. -/
theorem longer {parserToo : Parser α} {low : Nat} {two : State} {others : List α} {middle : State}
    (agree : Concur c low 0 1 parser parserToo) (each : Progress parserToo)
    (series : Series parser state values after) (seriesToo : Series parserToo two others middle)
    (start : Longer c state two) (begun : low ≤ state.cursor.index)
    (inner : ∀ index < c.limit, (state.cursor.tokenAt index).isEnd = false)
    (stopped : after.cursor.peek.isEnd = true) (atLimit : middle.cursor.index = c.limit) :
    others = values ∧ Longer c after middle := by
  induction seriesToo generalizing state values with
  | nil two =>
    cases series with
    | nil => exact ⟨rfl, start⟩
    | cons within run rest =>
      rw [start.isEnd_peek (start.index.symm.trans atLimit)] at within
      cases within
  | cons withinToo runToo restToo ih =>
    have index := start.index
    obtain ⟨forward, further⟩ := each start.readyToo withinToo runToo
    have final := (restToo.forward each (forward.ready start.readyToo)).index
    have running : state.cursor.peek.isEnd = false := inner _ (by omega)
    cases series with
    | nil => cases stopped.symm.trans running
    | @cons _ reached _ _ _ within run rest =>
      rcases agree.agree start begun runToo with ⟨_, sameRun, longer⟩ | past
      · cases run.symm.trans sameRun
        have here := longer.index
        have tokenAt (place : Nat) (inside : place < c.limit) :
            (reached.cursor.tokenAt place).isEnd = false := by
          rw [← longer.tokenAt_of_lt inside, forward.tokenAt, start.tokenAt_of_lt inside]
          exact inner place inside
        obtain ⟨rfl, ended⟩ := ih rest longer (by omega) tokenAt atLimit
        exact ⟨rfl, ended⟩
      · omega

end Series

theorem itemsUntil_eq_ok {stop : Token → Bool} {parser : Parser α} (each : Progress parser)
    {bound : Nat} {values : List α} (ready : state.cursor.Ready)
    (enough : state.cursor.remaining < bound)
    (run : itemsUntil stop parser bound state = .ok values after) :
    Series parser state values after ∧ stop after.cursor.peek = true := by
  induction bound generalizing state values with
  | zero => exact absurd enough (Nat.not_lt_zero _)
  | succ bound ih =>
    simp only [itemsUntil, Bind.bind, EStateM.bind, peek] at run
    by_cases stopped : stop state.cursor.peek = true
    · rw [if_pos stopped] at run
      cases run
      exact ⟨.nil _, stopped⟩
    · rw [if_neg stopped] at run
      split at run
      · cases run
      · rename_i isWithin
        have within := Bool.eq_false_iff.mpr isWithin
        obtain ⟨value, middle, itemRun, restRun⟩ := bind_eq_ok_iff.mp run
        obtain ⟨others, last, othersRun, ⟨⟩⟩ := bind_eq_ok_iff.mp restRun
        obtain ⟨forward, further⟩ := each ready within itemRun
        have fewer : middle.cursor.remaining < bound := by
          have inside := forward.inside
          simp only [Cursor.remaining, forward.tokens] at enough ⊢
          omega
        obtain ⟨series, stoppedToo⟩ := ih (forward.ready ready) fewer othersRun
        exact ⟨.cons within itemRun series, stoppedToo⟩

/-- Every statement has a token of its own. -/
theorem progress_statement (level : Nat) : Progress (Rules.level level).statement :=
  fun _ _ _ ready within => further_of_gains
    (fun _ => (rulesConcur_self level 0).statement.gains) ready (ready.lt_of_not_end within)

/-- A program is read as a series of statements up to the end of input. -/
theorem program_eq_ok (ready : state.cursor.Ready)
    (run : Grammar.program state = .ok program after) :
    Series (Rules.level state.cursor.remaining).statement state program.body after ∧
      after.cursor.peek.isEnd = true := by
  obtain ⟨start, _, ⟨⟩, bodyRun⟩ := bind_eq_ok_iff.mp run
  obtain ⟨bound, _, ⟨⟩, itemsRun⟩ := bind_eq_ok_iff.mp bodyRun
  obtain ⟨body, final, seriesRun, spanRun⟩ := bind_eq_ok_iff.mp itemsRun
  obtain ⟨span, _, ⟨⟩, ⟨⟩⟩ := bind_eq_ok_iff.mp spanRun
  exact itemsUntil_eq_ok (progress_statement _) ready (Nat.lt_succ_self _) seriesRun

/-! ## Statements that declare macros -/

/-- A statement that declares a macro was read by the rule for declarations. -/
theorem statement_eq_macroDeclaration {level : Nat} (ready : state.cursor.Ready)
    (run : (Rules.level level).statement state = .ok (.macroDeclaration declared) after) :
    ∃ reader : Reader, state = reader.state ∧
      macroDeclaration reader.state = .ok (.macroDeclaration declared) after := by
  cases level with
  | zero => cases run
  | succ level =>
    rcases bind_eq_ok_iff.mp run with ⟨declares, _, ⟨⟩, run⟩
    cases chosen : state.context.isSome && state.cursor.peek.isWord "macro" &&
        (state.cursor.peekAt 1).isName with
    | false =>
      rw [chosen] at run
      have contains := Extent.containsState_all ready
      have plain := addsStmt_plainStatement (bounded_level (.ofState contains) level) _ state
        (Extent.Page.holds_ofState contains) rfl
      have plainRun : plainStatement (Rules.level level) state = _ := run
      rw [plainRun] at plain
      exact (plain.2.1 rfl).elim
    | true =>
      rw [chosen] at run
      rw [Bool.and_eq_true, Bool.and_eq_true] at chosen
      rcases Option.isSome_iff_exists.mp chosen.1.1 with ⟨context, known⟩
      have same : state = Reader.state ⟨state.cursor, context⟩ := by
        rw [Reader.state, ← known]
      exact ⟨⟨state.cursor, context⟩, same, same ▸ run⟩

/-- A macro declaration begins where its rule does, and the macro is declared behind it. -/
theorem macroDeclaration_eq_ok {reader : Reader} (ready : reader.cursor.Ready)
    (run : macroDeclaration reader.state = .ok (.macroDeclaration declared) after) :
    declared.span.start = reader.cursor.peek.span.start ∧
      ∃ next rules, after = Reader.state ⟨next,
        (reader.context.mark reader.context.scopes declared.name.name none).declare
          declared.name.name rules declared.span⟩ := by
  have stepped := stepped_macroDeclaration ready
  rw [run] at stepped
  rcases stepped with ⟨final, places, rfl, step, leaves⟩
  have only : places.map Prod.snd = [.declaration declared] := leaves.symm
  cases step with
  | @declaration cursor next context name rules forward inside templates written =>
    cases only
    exact ⟨Span.through_start _ _, next, rules, rfl⟩
  | _ => cases only

/-- If the last statement of the longer source is a macro declaration that begins behind the
shorter one, then the statements before it are those of the shorter source. -/
theorem program_longer {one two afterOne afterTwo : State} {longer : Program} {front : List Stmt}
    (start : Longer c one two) (run : Grammar.program one = .ok program afterOne)
    (runToo : Grammar.program two = .ok longer afterTwo)
    (ends : longer.body = front ++ [.macroDeclaration declared])
    (inner : ∀ index < c.limit, (one.cursor.tokenAt index).isEnd = false)
    (begins : ∀ index, (two.cursor.tokenAt index).span.start = declared.span.start →
      index = c.limit) :
    front = program.body ∧ ∃ reader : Reader, Longer c afterOne reader.state ∧
      macroDeclaration reader.state = .ok (.macroDeclaration declared) afterTwo := by
  rcases program_eq_ok start.ready run with ⟨series, stopped⟩
  rcases program_eq_ok start.readyToo runToo with ⟨seriesToo, -⟩
  rw [ends] at seriesToo
  rcases seriesToo.of_concat with ⟨middle, frontSeries, lastRun⟩
  have forwardToo := frontSeries.forward (progress_statement _) start.readyToo
  rcases statement_eq_macroDeclaration (forwardToo.ready start.readyToo) lastRun with
    ⟨reader, rfl, declares⟩
  have agree :=
    (rulesConcur_level start.differs one.cursor.remaining two.cursor.remaining).statement
  have begun : c.limit - one.cursor.remaining ≤ one.cursor.index := by
    rw [Cursor.remaining, start.size]
    omega
  have atLimit : reader.state.cursor.index = c.limit := by
    apply begins
    rw [← forwardToo.tokenAt]
    exact (macroDeclaration_eq_ok (forwardToo.ready start.readyToo) declares).1.symm
  rcases series.longer agree (progress_statement _) frontSeries start begun inner stopped
    atLimit with ⟨rfl, reached⟩
  exact ⟨rfl, reader, reached, declares⟩

end Grammar

/-! ## Sources -/

open MacroScript.Grammar

namespace Cursor

theorem ofTokens_concat (words : List Token) {finish : Token} (isEnd : finish.isEnd = true) :
    ofTokens (words ++ [finish]) = { tokens := words.toArray, finish } := by
  simp [ofTokens, isEnd]

theorem tokenAt_mk (words : List Token) (finish : Token) (index : Nat) :
    tokenAt { tokens := words.toArray, finish } index = words[index]?.getD finish := by
  simp [tokenAt]

end Cursor

/-- The tokens of the second source are those of the first one, and go on with the given
word `macro`. -/
def GoesOnWith (word : Token) (source longer : String) : Prop :=
  word.isWord "macro" = true ∧ ∃ words finish rest,
    tokenize source = .ok (words ++ [finish]) ∧ tokenize longer = .ok (words ++ word :: rest)

/-- Only one token of the longer source begins where the word does. -/
theorem begins_at_word {words rest : List Token} {finish : Token} {offset : Nat}
    (scanned : Scan.Scanned offset (words ++ word :: (rest ++ [finish])))
    (ordinary : ∀ token ∈ words, token.isEnd = false) (notEnd : word.isEnd = false) {index : Nat}
    (same : ((words ++ word :: rest)[index]?.getD finish).span.start = word.span.start) :
    index = words.length := by
  rcases Nat.lt_trichotomy index words.length with before | atWord | behind
  · rw [List.getElem?_append_left before, List.getElem?_eq_getElem before,
      Option.getD_some] at same
    have mem : words[index] ∈ words := List.getElem_mem before
    generalize words[index] = token at mem same
    have ordinaryToken := ordinary token mem
    rcases List.append_of_mem mem with ⟨first, second, rfl⟩
    rw [List.append_assoc, List.cons_append] at scanned
    have earlier : token.span.start < word.span.start := scanned.start_lt ordinaryToken (by simp)
    omega
  · exact atWord
  · have mem : (words ++ word :: rest)[index]?.getD finish ∈ rest ++ [finish] := by
      rw [List.getElem?_append_right (Nat.le_of_lt behind)]
      obtain ⟨offset, shift⟩ : ∃ offset, index - words.length = offset + 1 :=
        ⟨index - words.length - 1, by omega⟩
      rw [shift, List.getElem?_cons_succ]
      cases found : rest[offset]? with
      | none => simp
      | some token =>
        have known := List.mem_of_getElem? found
        simp [known]
    have later : word.span.start < _ := scanned.start_lt notEnd mem
    omega

/-- A source is read by the rule for programs, which leaves the scopes as they were. -/
theorem Session.readProgram_eq_program {tokens : List Token}
    (scanned : tokenize source = .ok tokens)
    (read : readProgram source session = .ok program after) :
    ∃ final : Reader,
      Grammar.program (session.readerState tokens [] none) = .ok program final.state ∧
        final.context.scopes = [session.scopes.size] ∧ after = final.context.session := by
  simp only [readProgram, scanned, bind_eq_ok_iff, pure_eq_ok_iff] at read
  rcases read with ⟨⟨_, state⟩, _, run, rfl, rfl⟩
  rcases read_eq_ok yields_program run with ⟨final, places, rfl, rfl, walk, -⟩
  have advances := walk.advances fresh_reader.nonempty
  refine ⟨final, ?_, advances.scopes, rfl⟩
  unfold Session.read at run
  split at run
  · rename_i value state found
    cases run
    exact found
  · cases run

/-- The parsers that begin to read two sources, of which one goes on with the word. -/
structure Opened (word : Token) (session : Session) (tokens tokensToo : List Token)
    (c : Continuation) : Prop where
  longer : Longer c (session.readerState tokens [] none) (session.readerState tokensToo [] none)
  inner : ∀ index < c.limit, ((Cursor.ofTokens tokens).tokenAt index).isEnd = false
  begins : ∀ index, ((Cursor.ofTokens tokensToo).tokenAt index).span.start = word.span.start →
    index = c.limit

theorem GoesOnWith.opened {longer : String} (goesOn : GoesOnWith word source longer)
    (session : Session) :
    ∃ tokens tokensToo c, tokenize source = .ok tokens ∧ tokenize longer = .ok tokensToo ∧
      Opened word session tokens tokensToo c := by
  rcases goesOn with ⟨isMacro, words, finish, rest, scanned, scannedToo⟩
  have notEnd : word.isEnd = false := by
    rw [Token.isWord, Bool.and_eq_true, beq_iff_eq] at isMacro
    rw [Token.isEnd, isMacro.1]
    rfl
  rcases exists_finish_tokenize scanned with ⟨_, _, split, isEnd, ordinary⟩
  rcases List.append_inj' split rfl with ⟨rfl, ⟨⟩⟩
  rcases exists_finish_tokenize scannedToo with ⟨all, last, splitToo, isEndToo, -⟩
  rcases List.eq_nil_or_concat rest with rfl | ⟨behind, finishToo, rfl⟩
  · rcases List.append_inj' splitToo rfl with ⟨-, ⟨⟩⟩
    cases notEnd.symm.trans isEndToo
  · have same : words ++ word :: (behind ++ [finishToo]) =
        (words ++ word :: behind) ++ [finishToo] := by simp
    rw [List.concat_eq_append] at scannedToo splitToo
    rcases List.append_inj' (same.symm.trans splitToo) rfl with ⟨rfl, ⟨⟩⟩
    have first := Cursor.ofTokens_concat words isEnd
    have second := Cursor.ofTokens_concat (words ++ word :: behind) isEndToo
    rw [← same] at second
    refine ⟨_, _, ⟨words.length, word, behind, false⟩, scanned, scannedToo, ?_, ?_, ?_⟩
    · constructor
      case differs => rfl
      case size => simp [Session.readerState, first]
      case tokens => simp [Session.readerState, first, second]
      case index => simp [Session.readerState, first, second]
      case allowIn => simp [Session.readerState, first, second]
      case context => rfl
      case plain => rintro context ⟨⟩; rfl
      case ready => exact Cursor.ready_ofTokens _
      case readyToo => exact Cursor.ready_ofTokens _
    · intro index inside
      rw [first, Cursor.tokenAt_mk, List.getElem?_eq_getElem inside, Option.getD_some]
      exact ordinary _ (List.getElem_mem inside)
    · intro index begins
      rw [second, Cursor.tokenAt_mk] at begins
      exact begins_at_word (scanned_tokenize scannedToo) ordinary notEnd begins

/-- If the last statement of the longer source is the declaration that begins with the word,
then the others are those of the shorter source, and the macro is declared in its session. -/
theorem Session.readProgram_longer {longer : String} {afterToo : Session} {programToo : Program}
    {front : List Stmt} {declared : MacroStmt} (goesOn : GoesOnWith word source longer)
    (read : readProgram source session = .ok program after)
    (readToo : readProgram longer session = .ok programToo afterToo)
    (ends : programToo.body = front ++ [.macroDeclaration declared])
    (begins : declared.span.start = word.span.start) :
    front = program.body ∧ ∃ definition : MacroDef, definition.name = declared.name.name ∧
      afterToo = (after.markColor session.scopes.size definition.name none).declareMacro
        session.scopes.size definition := by
  rcases goesOn.opened session with ⟨tokens, tokensToo, c, scanned, scannedToo, opened⟩
  rcases readProgram_eq_program scanned read with ⟨final, run, scopes, rfl⟩
  rcases readProgram_eq_program scannedToo readToo with ⟨finalToo, runToo, -, rfl⟩
  rcases program_longer opened.longer run runToo ends opened.inner
    (begins ▸ opened.begins) with ⟨rfl, reader, longer, declares⟩
  have atEnd : reader.context = final.context := Option.some.inj longer.context
  rcases macroDeclaration_eq_ok longer.readyToo declares with ⟨-, next, rules, same⟩
  refine ⟨rfl, ⟨declared.name.name, rules, [session.scopes.size], declared.span⟩, rfl, ?_⟩
  have context := Option.some.inj (congrArg State.context same)
  rw [context, atEnd, scopes]
  simp [Context.declare, Context.mark, scopes]

end MacroScript
