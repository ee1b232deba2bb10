import MacroScript.Proofs.Splicing.Upkeep
import MacroScript.Proofs.Scanning
import MacroScript.Proofs.Tandem.Splicing
import MacroScript.Proofs.Tandem.Transcript

/-!
# Compiling in sessions that are alike

Expanding a call, and so compiling a program, runs in step in sessions that are alike:
the outcome is the same up to numbers.  All names and literals of the result were read from
tokens of the vocabulary, whatever expansions they went through.
-/

namespace MacroScript

open MacroScript.Grammar MacroScript.Matching MacroScript.Transcript

variable {r : Renumbering} {v : Vocabulary} {source : String} {call : Invocation}

/-! ## Expanding one call -/

theorem inStep_definitionOf (call : Invocation) :
    Session.InStep r v r.definition (fun definition => definition.Within v) (definitionOf call)
      (definitionOf (r.call call)) := by
  intro one two alike
  have found : two.macros.get? (r.call call).macroId =
      (one.macros.get? call.macroId).map r.definition := alike.definition call.macroId
  simp only [definitionOf, bind, EStateM.bind, Outcome.get_run, found]
  cases known : one.macros.get? call.macroId with
  | none => exact .error alike
  | some definition => exact .ok alike (alike.covered known)

/-- The variables are bound to tokens of the call, and the template is of the vocabulary. -/
def ChosenFrom (v : Vocabulary) (call : Invocation) (chosen : Nat × Rule × Bindings) : Prop :=
  v.Covers chosen.2.1.template ∧ BindingsFrom call chosen.2.2

theorem inStep_matchCall (covered : v.Covers call.tokens) :
    Session.InStep r v (renumberChoice r) (ChosenFrom v call) (matchCall call)
      (matchCall (r.call call)) := by
  apply Session.InStep.bind (inStep_definitionOf call)
  intro definition within
  apply (inStep_firstMatch covered definition.name 0 definition.rules).mono
  rintro _ _ chosen - ⟨ruleMem, bindingsKnown⟩
  exact ⟨within _ ruleMem, bindingsKnown⟩

/-- Programs that are read in sessions that are alike. -/
theorem Session.Alike.outcome_program {one two : Session} (alike : one.Alike r v two)
    {tokens : List Token} (covered : v.Covers tokens) (outer : ScopeStack)
    (hygiene : Option Hygiene) :
    (alikeSimulation r v).Outcome r.program Mark.ofProgram []
      (program (one.readerState tokens outer hygiene))
      (program (two.readerState (tokens.map r.token) (outer.map r.scope)
        (hygiene.map r.hygiene))) := by
  have run := tandem_program (alikeSimulation r v) [] _ _ (alike.reader covered outer hygiene)
  rwa [Session.reader_state, Session.reader_state] at run

/-- A program that was read from a transcript, with its color, under new numbers. -/
abbrev renumberReading (r : Renumbering) : Program × Option Color → Program × Option Color :=
  Prod.map r.program (Option.map r.color)

theorem inStep_readTranscript (definition : MacroDef) (call : Invocation)
    {transcript : List Placed} (covered : v.Covers (transcript.map Prod.fst)) :
    Session.InStep r v (renumberReading r) (fun read => v.ShowsAll (Mark.ofProgram read.1))
      (Expansion.readTranscript definition call transcript)
      (Expansion.readTranscript (r.definition definition) (r.call call)
        (transcript.map r.placed)) := by
  intro one two alike
  have tokens : (transcript.map r.placed).map Prod.fst = (transcript.map Prod.fst).map r.token := by
    rw [List.map_map, List.map_map]
    rfl
  have origins : (transcript.map r.placed).map Prod.snd = transcript.map Prod.snd := by
    rw [List.map_map]
    rfl
  have run := alike.outcome_program covered definition.scopes
    (some ⟨(transcript.map Prod.snd).toArray, definition.scopes, call.scopes, none⟩)
  simp only [Expansion.readTranscript, Session.read, tokens, origins, Renumbering.definition,
    Renumbering.call]
  simp only [Option.map_some, Renumbering.hygiene, Option.map_none] at run
  generalize program (one.readerState _ _ _) = firstRun at run ⊢
  generalize program (two.readerState _ _ _) = secondRun at run ⊢
  cases run with
  | error failed => exact .error failed
  | @ok value before after related =>
    have color : after.state.assignedColor = before.state.assignedColor.map r.color := by
      change after.context.hygiene.bind Hygiene.color =
        (before.context.hygiene.bind Hygiene.color).map r.color
      rw [related.context.hygiene]
      cases before.context.hygiene <;> rfl
    simp only [color]
    exact .ok related.context.session fun mark mem => related.shown mem

/-- An expansion under new numbers. -/
def Renumbering.expansion (r : Renumbering) (expansion : Expansion) : Expansion :=
  { expansion with
    program := r.program expansion.program
    color := expansion.color.map r.color }

theorem inStep_expand (covered : v.Covers call.tokens) :
    Session.InStep r v r.expansion (fun expansion => v.ShowsAll (Mark.ofProgram expansion.program))
      (expand call) (expand (r.call call)) := by
  apply Session.InStep.bind (inStep_definitionOf call)
  intro definition _
  apply Session.InStep.bind (inStep_matchCall covered)
  rintro ⟨number, rule, bindings⟩ ⟨templateCovered, known⟩
  have same : transcribe (r.definition definition).name (r.bindings bindings)
      (r.rule rule).template =
        (transcribe definition.name bindings rule.template).map (List.map r.placed) :=
    transcribe_renumbered r definition.name bindings rule.template
  simp only [Prod.map, same]
  cases transcribed : transcribe definition.name bindings rule.template with
  | error fault => exact .throw fault
  | ok transcript =>
    apply Session.InStep.bind (inStep_readTranscript definition call
      (covers_transcribe known covered templateCovered transcribed))
    rintro ⟨program, color⟩ shown
    exact .pure rfl shown

/-! ## Expanding everything -/

namespace Compile

theorem inStep_beginStep (recordTrace recordToo : Bool) (other : Invocation) {α : Type}
    {map : α → α} {post : α → Prop} {next nextToo : Option Nat → SessionM α}
    (rest : ∀ step stepToo, Session.InStep r v map post (next step) (nextToo stepToo)) :
    Session.InStep r v map post (beginStep recordTrace call >>= next)
      (beginStep recordToo other >>= nextToo) := by
  intro one two alike
  obtain ⟨step, trace, began⟩ := exists_beginStep recordTrace call one
  obtain ⟨stepToo, traceToo, beganToo⟩ := exists_beginStep recordToo other two
  simp only [bind, EStateM.bind, began, beganToo]
  exact rest step stepToo _ _ (alike.retrace trace traceToo)

theorem inStep_finishStep (step stepToo : Option Nat) (color colorToo : Option Color)
    {program : Program} (shown : v.ShowsAll (Mark.ofProgram program)) :
    Session.InStep r v r.program (fun program => v.ShowsAll (Mark.ofProgram program))
      (do finishStep step color program; return program)
      (do finishStep stepToo colorToo (r.program program); return r.program program) := by
  intro one two alike
  cases step with
  | none =>
    cases stepToo with
    | none => exact .ok alike shown
    | some numberToo => exact .ok (alike.retrace one.trace _) shown
  | some number =>
    cases stepToo with
    | none => exact .ok (alike.retrace _ two.trace) shown
    | some numberToo => exact .ok (alike.retrace _ _) shown

theorem handlersInStep_expandWithin (recordTrace recordToo : Bool) (depth : Nat) :
    Splice.HandlersInStep r v (expandWithin recordTrace depth)
      (expandWithin recordToo depth) := by
  induction depth with
  | zero =>
    intro call _
    exact .throw _
  | succ depth ih =>
    intro call covered
    apply inStep_beginStep
    intro step stepToo
    apply Session.InStep.bind (inStep_expand covered)
    intro expansion shown
    apply Session.InStep.bind (Splice.inStep_spliceProgram ih shown)
    intro program programShown
    exact inStep_finishStep step stepToo _ _ programShown

end Compile

/-- The two computations may have different options. -/
theorem inStep_compile_options (options other : CompileOptions) {program : Program}
    (shown : v.ShowsAll (Mark.ofProgram program)) :
    Session.InStep r v r.program (fun program => v.ShowsAll (Mark.ofProgram program))
      (compile options program) (compile other (r.program program)) :=
  Splice.inStep_spliceProgram (Compile.handlersInStep_expandWithin _ _ _) shown

theorem inStep_compile (options : CompileOptions) {program : Program}
    (shown : v.ShowsAll (Mark.ofProgram program)) :
    Session.InStep r v r.program (fun program => v.ShowsAll (Mark.ofProgram program))
      (compile options program) (compile options (r.program program)) :=
  inStep_compile_options options options shown

/-! ## Units -/

theorem Renumbering.token_of_plain (r : Renumbering) {token : Token} (plain : token.color = none) :
    r.token token = token := by
  rw [Renumbering.token, plain, Option.map_none, ← plain]

/-- The tokens of a source have no numbers. -/
theorem map_token_of_tokenize (r : Renumbering) {tokens : List Token}
    (scanned : tokenize source = .ok tokens) : tokens.map r.token = tokens := by
  have fixed : ∀ token ∈ tokens, r.token token = id token := fun token mem =>
    r.token_of_plain ((scanned_tokenize scanned).plain token mem)
  rw [List.map_congr_left fixed, List.map_id]

theorem inStep_readProgram (covered : ∀ tokens, tokenize source = .ok tokens → v.Covers tokens) :
    Session.InStep r v r.program (fun program => v.ShowsAll (Mark.ofProgram program))
      (Session.readProgram source) (Session.readProgram source) := by
  intro one two alike
  unfold Session.readProgram
  cases scanned : tokenize source with
  | error fault => exact .error alike
  | ok tokens =>
    have run := alike.outcome_program (covered tokens scanned) [] none
    rw [map_token_of_tokenize r scanned] at run
    simp only [bind, EStateM.bind, Session.read, List.map_nil, Option.map_none] at run ⊢
    generalize program (one.readerState _ _ _) = firstRun at run ⊢
    generalize program (two.readerState _ _ _) = secondRun at run ⊢
    cases run with
    | error failed => exact .error failed
    | ok related => exact .ok related.context.session fun mark mem => related.shown mem

theorem inStep_expandSource_options (options other : CompileOptions)
    (covered : ∀ tokens, tokenize source = .ok tokens → v.Covers tokens) :
    Session.InStep r v r.program (fun program => v.ShowsAll (Mark.ofProgram program))
      (expandSource options source) (expandSource other source) := by
  apply Session.InStep.bind (inStep_readProgram covered)
  intro program shown
  exact inStep_compile_options options other shown

theorem inStep_expandSource (options : CompileOptions)
    (covered : ∀ tokens, tokenize source = .ok tokens → v.Covers tokens) :
    Session.InStep r v r.program (fun program => v.ShowsAll (Mark.ofProgram program))
      (expandSource options source) (expandSource options source) :=
  inStep_expandSource_options options options covered

end MacroScript
