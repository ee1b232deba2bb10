import MacroScript.Compile
import MacroScript.Proofs.Blame.Transcript
import MacroScript.Proofs.Matching.Shape
import MacroScript.Proofs.Extent.Grammar
import MacroScript.Proofs.Hygiene.Performed
import MacroScript.Proofs.Splicing.Upkeep
import MacroScript.Proofs.Tandem.Compile

/-!
# Expanding within an extent

Expanding a call tries parsers on its arguments, transcribes a template with what they took, and
reads the transcript.  So tokens of the call and of the macro are mixed, with parentheses placed
at tokens of the call.  When the call and the macros of the session lie within an extent, all
this stays within it, and so do the calls of the result.
-/

namespace MacroScript

open MacroScript.Grammar MacroScript.Outcome

variable {reader after : Reader} {places : List Place} {call : Invocation}

/-! ## Calls -/

namespace Extent

structure ContainsCall (e : Extent) (call : Invocation) : Prop where
  span : e.Contains call.span
  tokens : e.ContainsTokens call.tokens

/-- The calls among leaves lie within the extent. -/
def ContainsCalls (e : Extent) (leaves : List Leaf) : Prop :=
  ∀ call, .call call ∈ leaves → e.ContainsCall call

end Extent

open MacroScript.Extent

variable {e : Extent}

theorem Grammar.Step.containsCalls (step : Step reader places after)
    (contains : e.ContainsCursor reader.cursor) : e.ContainsCalls (places.map Prod.snd) := by
  intro invocation mem
  cases step with
  | move forward => cases mem
  | binding isName binds colored
  | reference isName colored
  | declaration forward inside templates written => simp at mem
  | abandoned forward => cases mem
  | @call cursor next context macroId captured tokens rest isName found taken fixed forward
      behind =>
    simp only [List.map_cons, List.map_nil, List.mem_singleton, Leaf.call.injEq] at mem
    subst mem
    have nextContains : e.ContainsCursor next :=
      ⟨forward.tokens ▸ contains.tokens, forward.finish ▸ contains.finish⟩
    have capturedContains : e.ContainsTokens captured := by
      intro token tokenMem
      apply contains.tokens
      have inDrop : token ∈ cursor.tokens.toList.drop (cursor.index + 2) := by
        rw [taken]
        exact List.mem_append_left _ tokenMem
      exact Array.mem_toList_iff.mp (List.mem_of_mem_drop inDrop)
    have answers := answers_captureColors context cursor (cursor.index + 2) capturedContains
    rw [fixed] at answers
    exact ⟨e.through (contains.tokenAt _) nextContains.previousSpan, answers⟩

/-- The calls that a walk comes to lie within the extent of its tokens. -/
theorem Grammar.Walk.containsCalls (walk : Walk reader places after) (ready : reader.cursor.Ready)
    (contains : e.ContainsCursor reader.cursor) : e.ContainsCalls (places.map Prod.snd) := by
  induction walk with
  | nil reader =>
    intro call mem
    cases mem
  | step step => exact step.containsCalls contains
  | enclosed inner ih => exact ih ready contains
  | @append reader middle after first second one two firstIh secondIh =>
    have forward := one.forward ready
    have middleContains : e.ContainsCursor middle.cursor :=
      ⟨forward.tokens ▸ contains.tokens, forward.finish ▸ contains.finish⟩
    intro call mem
    rw [List.map_append, List.mem_append] at mem
    rcases mem with early | late
    · exact firstIh ready contains call early
    · exact secondIh (forward.ready ready) middleContains call late

/-! ## Sessions -/

namespace Extent

/-- The computation stays within the extent, whether it comes to a `good` value or to a fault. -/
abbrev BoundsSession {α : Type} (e : Extent) (good : α → Prop) (action : SessionM α) : Prop :=
  Stays e.ContainsSession e.ContainsFault (fun value _ => good value) action

theorem ContainsState.ofSession (expands : e.Expands) {state : State}
    (contains : e.ContainsState state) : e.ContainsSession state.session := by
  unfold State.session
  cases found : state.context with
  | none => exact .empty expands.macros
  | some context => exact contains.session context found

end Extent

section Expanding

variable (expands : e.Expands) {tokens : List Token}

include expands

theorem boundsSession_read {α : Type} {good : α → Prop} {parser : Parser α}
    (bounds : e.Bounds good parser) (contains : e.ContainsTokens tokens) (outer : ScopeStack)
    (hygiene : Option Hygiene) :
    e.BoundsSession (fun found => good found.1) (Session.read parser tokens outer hygiene) := by
  intro session known
  have begins : e.ContainsState (session.readerState tokens outer hygiene) := by
    refine ⟨Cursor.ready_ofTokens tokens, .ofTokens contains (.inl expands), ?_⟩
    intro context found
    obtain rfl := Option.some.inj found
    exact known.of_macros rfl
  have run := bounds _ begins
  unfold Session.read
  revert run
  cases parser (session.readerState tokens outer hygiene) with
  | ok value state
  | error fault state => exact fun run => ⟨run.1.ofSession expands, run.2⟩

/-- The calls of a program that is read lie within the extent of its tokens. -/
theorem boundsSession_read_program (contains : e.ContainsTokens tokens) (outer : ScopeStack)
    (hygiene : Option Hygiene) :
    e.BoundsSession (fun found => e.ContainsCalls (Leaf.ofProgram found.1))
      (Session.read program tokens outer hygiene) := by
  intro session known
  have run := boundsSession_read expands (bounds_of_leads _ fun _ => leads_program) contains outer
    hygiene session known
  cases outcome : Session.read program tokens outer hygiene session with
  | error fault after => rwa [outcome] at run
  | ok found after =>
    rw [outcome] at run
    obtain ⟨final, places, -, -, walk, seen⟩ := Session.read_eq_ok yields_program outcome
    refine ⟨run.1, ?_⟩
    simp only [seen]
    exact walk.containsCalls Session.ready_reader (.ofTokens contains (.inl expands))

end Expanding

/-! ## Matching -/

namespace Matching

theorem bounds_captureParser (kind : CaptureKind) :
    e.Bounds (fun _ => True) (captureParser kind) := by
  have expressions : e.Bounds (fun _ => True) (withRules fun rules => do
      let _ ← rules.assignment) :=
    bounds_of_leads (fun _ _ _ _ => True) fun _ first => leads_withRules fun _ rules =>
      (rules.assignment first).bind fun _ _ => .pure trivial fun _ _ => trivial
  cases kind with
  | literal
  | ident
  | expr => exact expressions
  | stmt =>
    exact bounds_of_leads (fun _ _ _ _ => True) fun _ first => leads_withRules fun _ rules =>
      (rules.statement first).bind fun _ _ => .pure trivial fun _ _ => trivial

/-- Trying parsers on arguments within the extent keeps the session within it. -/
theorem Tried.containsSession (expands : e.Expands) (contains : e.ContainsTokens call.tokens)
    {before after : Session} (tried : Tried call before after) (known : e.ContainsSession before) :
    e.ContainsSession after := by
  induction tried with
  | refl => exact known
  | @attempt session after kind tokens places last inside reads _ _ ih =>
    apply ih
    rw [← reads]
    exact (boundsSession_read expands (bounds_captureParser kind)
      (fun token mem => contains token (inside token mem)) call.scopes none).final known

mutual

theorem contains_of_mem_spans_element {element : PatternElement}
    (known : e.ContainsElement element) : ∀ span ∈ element.spans, e.Contains span := by
  cases element with
  | token token => simp [PatternElement.spans]
  | capture name kind span =>
    rw [ContainsElement] at known
    simpa [PatternElement.spans] using known
  | repetition content separator span =>
    rw [ContainsElement] at known
    exact List.forall_mem_cons.mpr ⟨known.1, contains_of_mem_spans known.2⟩

theorem contains_of_mem_spans {elements : List PatternElement}
    (known : e.ContainsPattern elements) : ∀ span ∈ Pattern.spans elements, e.Contains span := by
  cases elements with
  | nil => simp [Pattern.spans]
  | cons element rest =>
    rw [ContainsPattern] at known
    exact List.forall_mem_append.mpr
      ⟨contains_of_mem_spans_element known.1, contains_of_mem_spans known.2⟩

end

theorem bounds_firstMatch (expands : e.Expands) (contains : e.ContainsCall call)
    (macroName : String) {rules : List Rule} (known : ∀ rule ∈ rules, e.ContainsRule rule) :
    e.BoundsSession
      (fun chosen => e.ContainsTokens chosen.2.1.template ∧ BindingsFrom call chosen.2.2 ∧
        chosen.2.2.Leveled 0)
      (firstMatch call macroName 0 rules) := by
  have blames : ∀ fault, Complains call macroName rules fault → e.ContainsFault fault := by
    rintro _ (rfl | ⟨rule, ruleMem, name, span, mem, rfl⟩)
    · exact containsFault_expansion contains.span _ _
    · exact containsFault_expansion (contains_of_mem_spans (known rule ruleMem).pattern span mem)
        _ _
  intro session sessionKnown
  have matched := ensures_firstMatch call macroName 0 rules blames session (.refl session)
  cases run : firstMatch call macroName 0 rules session with
  | error fault after =>
    rw [run] at matched
    exact ⟨matched.1.containsSession expands contains.tokens sessionKnown, matched.2⟩
  | ok chosen after =>
    rw [run] at matched
    obtain ⟨tried, ruleMem, bindingsFrom⟩ := matched
    obtain ⟨-, before, matchRun⟩ := firstMatch_eq_ok run
    exact ⟨tried.containsSession expands contains.tokens sessionKnown,
      (known _ ruleMem).template, bindingsFrom, leveled_of_matchPattern matchRun⟩

end Matching

theorem bounds_definitionOf (contains : e.ContainsCall call) :
    e.BoundsSession (fun definition => ∀ rule ∈ definition.rules, e.ContainsRule rule)
      (definitionOf call) := by
  intro session known
  simp only [definitionOf, bind, EStateM.bind, get_run]
  cases found : session.macros.get? call.macroId with
  | none => exact ⟨known, containsFault_internal contains.span _⟩
  | some definition => exact ⟨known, known.rules _ definition found⟩

/-! ## Transcripts -/

namespace Transcript

open MacroScript.Matching

variable {template : List Token}

theorem containsTokens_of_placedFrom (contains : e.ContainsCall call)
    (templateContains : e.ContainsTokens template) {transcript : List Placed}
    (known : ∀ placed ∈ transcript, PlacedFrom call template placed) :
    e.ContainsTokens (transcript.map Prod.fst) := by
  intro token mem
  obtain ⟨⟨_, origin⟩, placedMem, rfl⟩ := List.mem_map.mp mem
  have found := known _ placedMem
  cases origin with
  | body => exact templateContains _ found
  | invocation =>
    obtain ⟨source, newline, inCall | ⟨text, place, placeMem, rfl⟩, same⟩ := found
    · simp only at same
      subst same
      exact contains.tokens source inCall
    · simp only at same
      subst same
      exact contains.tokens place placeMem

/-- A transcript is made of the template and of what the call gave, and its faults stand in the
template. -/
theorem answers_transcribe (contains : e.ContainsCall call) (macroName : String)
    {bindings : Bindings} (known : BindingsFrom call bindings) (leveled : bindings.Leveled 0)
    (templateContains : e.ContainsTokens template) :
    e.Answers (fun transcript => e.ContainsTokens (transcript.map Prod.fst))
      (transcribe macroName bindings template) := by
  cases run : transcribe macroName bindings template with
  | error fault =>
    exact blamed_of_transcribe
      ⟨fun mem => containsFault_expansion (templateContains _ mem) _,
        fun mem => containsFault_malformed (templateContains _ mem)⟩ leveled run
  | ok transcript =>
    exact containsTokens_of_placedFrom contains templateContains (placedFrom_transcribe known run)

end Transcript

/-! ## Expansions -/

/-- The rule that was chosen lies within the extent, and its variables are bound to tokens of the
call. -/
theorem bounds_matchCall (expands : e.Expands) (contains : e.ContainsCall call) :
    e.BoundsSession
      (fun chosen => e.ContainsTokens chosen.2.1.template ∧
        Matching.BindingsFrom call chosen.2.2 ∧ chosen.2.2.Leveled 0)
      (Matching.matchCall call) := by
  apply Stays.bind (bounds_definitionOf contains)
  intro definition known
  exact Matching.bounds_firstMatch expands contains definition.name known

theorem Extent.ContainsFault.whileExpanding {fault : Fault} (contains : e.ContainsFault fault)
    (name : String) {span : Span} (spanContains : e.Contains span) :
    e.ContainsFault (fault.whileExpanding name span) := by
  unfold Fault.whileExpanding
  split
  · constructor
    · exact contains.span
    · intro note mem
      rcases List.mem_append.mp mem with old | new
      · exact contains.notes note old
      · obtain rfl := List.mem_singleton.mp new
        exact spanContains
    · exact contains.placed
  · exact contains

/-- The calls of the program that was read lie within the extent too. -/
theorem bounds_readTranscript (expands : e.Expands) (definition : MacroDef)
    (contains : e.ContainsCall call) {transcript : List Transcript.Placed}
    (transcriptContains : e.ContainsTokens (transcript.map Prod.fst)) :
    e.BoundsSession (fun read => e.ContainsCalls (Leaf.ofProgram read.1))
      (Expansion.readTranscript definition call transcript) := by
  intro session known
  have run := boundsSession_read_program expands transcriptContains definition.scopes
    (some (Expansion.hygieneOf definition call transcript)) session known
  rw [Expansion.hygieneOf] at run
  simp only [Expansion.readTranscript]
  revert run
  cases Session.read program (transcript.map Prod.fst) definition.scopes _ session with
  | error fault after =>
    exact fun run => ⟨run.1, run.2.whileExpanding definition.name contains.span⟩
  | ok read after => exact id

/-- Expanding a call stays within the extent, and so do the calls that come out of it. -/
theorem bounds_expand (expands : e.Expands) (contains : e.ContainsCall call) :
    e.BoundsSession (fun expansion => e.ContainsCalls (Leaf.ofProgram expansion.program))
      (expand call) := by
  apply Stays.bind (bounds_definitionOf contains)
  intro definition _
  apply Stays.bind (bounds_matchCall expands contains)
  rintro ⟨number, rule, bindings⟩ ⟨templateContains, bindingsKnown, leveled⟩
  have answers := Transcript.answers_transcribe contains definition.name bindingsKnown leveled
    templateContains
  simp only
  cases transcribed : transcribe definition.name bindings rule.template with
  | error fault =>
    rw [transcribed] at answers
    exact .throw answers
  | ok transcript =>
    rw [transcribed] at answers
    apply Stays.bind (bounds_readTranscript expands definition contains answers)
    rintro ⟨program, color⟩ calls
    exact .pure calls

/-! ## Expanding everything -/

/-- Sessions that lie within the extent, as do the calls that are expanded in them. -/
def Extent.upkeep (expands : e.Expands) : Upkeep where
  World := Session
  session world := world
  related before after := e.ContainsSession before → e.ContainsSession after
  blamed _ fault after := e.ContainsSession after ∧ e.ContainsFault fault
  fine session call := e.ContainsSession session ∧ e.ContainsCall call
  refl _ := id
  trans one two := two ∘ one
  failing _ := id
  later one := And.imp_left one
  retrace _ _ := ⟨_, rfl, fun known => known.of_macros rfl⟩
  complain _ known := ⟨known.1, containsFault_expansion known.2.span _ _⟩
  expand {session call} known := by
    apply (bounds_expand expands known.2 session known.1).imp
    · rintro expansion after ⟨contains, calls⟩
      exact ⟨after, rfl, fun _ => contains, fun inner mem => ⟨contains, calls inner mem⟩⟩
    · exact fun _ _ => id

theorem bounds_compile (expands : e.Expands) (options : CompileOptions) {program : Program}
    (calls : e.ContainsCalls (Leaf.ofProgram program)) :
    e.BoundsSession (fun _ => True) (compile options program) := by
  intro session known
  apply ((upkeep expands).compile options fun call mem => ⟨known, calls call mem⟩).imp
  · rintro _ _ ⟨_, rfl, contains, -⟩
    exact ⟨contains known, trivial⟩
  · exact fun _ _ => id

end MacroScript
