import MacroScript.Proofs.Hygiene.Run
import MacroScript.Proofs.Splicing.Upkeep

/-!
# Sessions that can be reached

A session starts empty.  It is changed by reading sources, by expanding calls that were
read in it, and by notes in its trace.  A source may be ill-formed and a call may not
expand; the session is kept in that case, with the scopes, macros and colors it gained on
the way.

Every session that is reached this way is sound, and so are the calls that were read in it.
Compiling leads from reached sessions to reached ones, whatever becomes of it.
-/

namespace MacroScript

open MacroScript.Grammar MacroScript.Outcome

variable {session : Session}

/-! ## Failing runs -/

/-- A change of the value does not change where a computation ends. -/
theorem Outcome.final_bind_pure {ε σ α β : Type} (action : EStateM ε σ α) (change : α → β)
    (state : σ) :
    final ((do return change (← action) : EStateM ε σ β) state) = final (action state) := by
  simp only [bind, EStateM.bind]
  cases action state <;> rfl

/-- Reading in a session is a walk, whether it comes to a value or to a fault. -/
theorem Session.exists_walk_of_read {α : Type} {parser : Parser α} {view : α → List Leaf}
    (yields : Yields parser view) (session : Session) (tokens : List Token) (outer : ScopeStack)
    (hygiene : Option Hygiene) :
    ∃ places last, Walk (session.reader tokens outer hygiene) places last ∧
      final (read parser tokens outer hygiene session) = last.context.session := by
  have walked := yields (session.reader tokens outer hygiene) ready_reader
  rw [reader_state] at walked
  unfold read
  cases outcome : parser (session.readerState tokens outer hygiene) with
  | ok value state
  | error fault state =>
    rw [outcome] at walked
    obtain ⟨last, places, rfl, walk, -⟩ := walked
    exact ⟨places, last, walk, rfl⟩

/-- A walk in a session lets it grow. -/
theorem Session.grows_of_walk {tokens : List Token} {outer : ScopeStack} {hygiene : Option Hygiene}
    {places : List Place} {last : Reader}
    (walk : Walk (session.reader tokens outer hygiene) places last) :
    session.Grows last.context.session :=
  (Grows.allocScope session).trans (walk.advances fresh_reader.nonempty).grows

/-- Reading a source keeps a session sound, also if it fails. -/
theorem Session.sound_after_readProgram (sound : session.Sound) (source : String) :
    (final (readProgram source session)).Sound ∧
      session.Grows (final (readProgram source session)) := by
  unfold readProgram
  cases scanned : tokenize source with
  | error fault => exact ⟨sound, .refl session⟩
  | ok tokens =>
    have readerSound := sound_reader_tokenize sound scanned
    obtain ⟨places, last, walk, last_eq⟩ :=
      exists_walk_of_read yields_program session tokens [] none
    have ends := (final_bind_pure (read Grammar.program tokens [] none) Prod.fst session).trans
      last_eq
    simp only [ends]
    exact ⟨(walk.sound ready_reader readerSound).1.session, grows_of_walk walk⟩

/-- The session in which expanding a call ends: its rules were tried, and perhaps a transcript
was read. -/
inductive Expansion.Ends (call : Invocation) (session : Session) : Session → Prop
  | matching {matching : Session} (tried : Matching.Tried call session matching) :
      Ends call session matching
  | reading {matching : Session} {definition : MacroDef} {rule : Rule}
      {transcript : List Transcript.Placed} {places : List Place} {last : Reader}
      (tried : Matching.Tried call session matching)
      (known : session.macros.get? call.macroId = some definition)
      (ruleMem : rule ∈ definition.rules)
      (placedFrom : ∀ placed ∈ transcript, Transcript.PlacedFrom call rule.template placed)
      (walk : Walk (readerOf definition call transcript matching) places last) :
      Ends call session last.context.session

theorem Expansion.exists_walk_of_readTranscript (definition : MacroDef) (call : Invocation)
    (transcript : List Transcript.Placed) (session : Session) :
    ∃ places last, Walk (readerOf definition call transcript session) places last ∧
      final (readTranscript definition call transcript session) = last.context.session := by
  obtain ⟨places, last, walk, last_eq⟩ := Session.exists_walk_of_read yields_program session
    (transcript.map Prod.fst) definition.scopes (some (hygieneOf definition call transcript))
  refine ⟨places, last, walk, ?_⟩
  rw [← last_eq, hygieneOf]
  simp only [readTranscript]
  cases Session.read Grammar.program (transcript.map Prod.fst) definition.scopes _ session <;> rfl

theorem Expansion.ends_expand (call : Invocation) (session : Session) :
    Ends call session (final (expand call session)) := by
  cases known : session.macros.get? call.macroId with
  | none =>
    have fails : definitionOf call session =
        .error (.internal call.span (.unregistered call.name.name)) session := by
      simp only [definitionOf, bind, EStateM.bind, get_run, known]
      rfl
    simp only [expand, bind, EStateM.bind, fails]
    exact .matching (.refl session)
  | some definition =>
    have looked : definitionOf call session = .ok definition session := by
      simp only [definitionOf, bind, EStateM.bind, get_run, known]
      rfl
    have chosen := Matching.ensures_firstMatch call definition.name 0 definition.rules
      (fun _ _ => trivial) session (.refl session)
    simp only [expand, Matching.matchCall, bind, EStateM.bind, looked]
    cases matched : Matching.firstMatch call definition.name 0 definition.rules session with
    | error fault matching =>
      rw [matched] at chosen
      exact .matching chosen.1
    | ok found matching =>
      obtain ⟨number, rule, bindings⟩ := found
      rw [matched] at chosen
      obtain ⟨tried, ruleMem, bindingsFrom⟩ := chosen
      simp only
      cases transcribed : transcribe definition.name bindings rule.template with
      | error fault => exact .matching tried
      | ok transcript =>
        obtain ⟨places, last, walk, last_eq⟩ :=
          exists_walk_of_readTranscript definition call transcript matching
        have ends := (final_bind_pure (readTranscript definition call transcript)
          (fun answer => ({ program := answer.1, color := answer.2, rule := number } :
            Expansion)) matching).trans last_eq
        have reading : Ends call session last.context.session :=
          .reading tried known ruleMem
            (Transcript.placedFrom_transcribe bindingsFrom transcribed) walk
        rw [← ends] at reading
        exact reading

/-- A sound call keeps a session sound, also if it cannot be expanded. -/
theorem Expansion.Ends.sound {call : Invocation} {after : Session} (ends : Ends call session after)
    (sound : session.Sound) (callSound : call.Sound session) :
    after.Sound ∧ session.Grows after := by
  cases ends with
  | matching tried => exact ⟨tried.keeps.sound sound callSound, tried.keeps.quiet.grows⟩
  | reading tried known ruleMem placedFrom walk =>
    have grows := tried.keeps.quiet.grows
    have readerSound := sound_readerOf (tried.keeps.sound sound callSound)
      (callSound.grows grows) (grows.macros known) ruleMem placedFrom
    exact ⟨(walk.sound Session.ready_reader readerSound).1.session,
      grows.trans (Session.grows_of_walk walk)⟩

/-! ## Reached sessions -/

/-- The sessions that are reached by reading sources and expanding calls, with the calls that
were read on the way. -/
inductive Session.Reached : Session → List Invocation → Prop
  | start : Reached {} []
  | read {session after : Session} {calls : List Invocation} {source : String}
      {program : Program} (reached : Reached session calls)
      (run : readProgram source session = .ok program after) :
      Reached after (Leaf.calls (Leaf.ofProgram program) ++ calls)
  | misread {session after : Session} {calls : List Invocation} {source : String} {fault : Fault}
      (reached : Reached session calls) (run : readProgram source session = .error fault after) :
      Reached after calls
  | expand {session after : Session} {calls : List Invocation} {call : Invocation}
      {expansion : Expansion} (reached : Reached session calls) (mem : call ∈ calls)
      (run : expand call session = .ok expansion after) :
      Reached after (Leaf.calls (Leaf.ofProgram expansion.program) ++ calls)
  | fail {session after : Session} {calls : List Invocation} {call : Invocation} {fault : Fault}
      (reached : Reached session calls) (mem : call ∈ calls)
      (run : MacroScript.expand call session = .error fault after) : Reached after calls
  | retrace {session : Session} {calls : List Invocation} (reached : Reached session calls)
      (trace : Array TraceStep) : Reached { session with trace } calls

namespace Session.Reached

variable {calls : List Invocation}

/-- A reached session is sound, and so are the calls that were read in it. -/
theorem sound (reached : Reached session calls) :
    session.Sound ∧ ∀ call ∈ calls, call.Sound session := by
  induction reached with
  | start => exact ⟨.empty, by simp⟩
  | @read session after calls source program _ run ih =>
    obtain ⟨sessionSound, callsSound⟩ := ih
    have grows := (sound_after_readProgram sessionSound source).2
    rw [run] at grows
    obtain ⟨afterSound, newSound⟩ := sound_readProgram sessionSound run
    refine ⟨afterSound, ?_⟩
    intro call mem
    rcases List.mem_append.mp mem with new | old
    · exact newSound call new
    · exact (callsSound call old).grows grows
  | @misread session after calls source fault _ run ih =>
    obtain ⟨sessionSound, callsSound⟩ := ih
    have ends := sound_after_readProgram sessionSound source
    rw [run] at ends
    exact ⟨ends.1, fun call mem => (callsSound call mem).grows ends.2⟩
  | @expand session after calls call expansion _ mem run ih =>
    obtain ⟨sessionSound, callsSound⟩ := ih
    obtain ⟨performed, rfl, rfl, program_eq, -, rfl⟩ := exists_performed run
    obtain ⟨afterSound, newSound⟩ := performed.sound sessionSound (callsSound _ mem)
    refine ⟨afterSound, ?_⟩
    intro call mem
    rcases List.mem_append.mp mem with new | old
    · rw [Leaf.mem_calls, ← program_eq, performed.leaves, List.mem_map] at new
      obtain ⟨⟨index, leaf⟩, place, rfl⟩ := new
      exact newSound index call place
    · exact (callsSound call old).grows performed.grows
  | @fail session after calls call fault _ mem run ih =>
    obtain ⟨sessionSound, callsSound⟩ := ih
    have ends := Expansion.ends_expand call session
    rw [run] at ends
    obtain ⟨afterSound, grows⟩ := ends.sound sessionSound (callsSound call mem)
    exact ⟨afterSound, fun call mem => (callsSound call mem).grows grows⟩
  | retrace _ trace ih =>
    obtain ⟨sessionSound, callsSound⟩ := ih
    constructor
    · exact ⟨sessionSound.scopes, sessionSound.templates, sessionSound.marks⟩
    · intro call mem
      exact ⟨(callsSound call mem).scopes, (callsSound call mem).tokens⟩

/-! ## Compiling in reached sessions -/

/-- Reached sessions, with the calls that were read on the way. -/
def upkeep : Upkeep where
  World := { world : Session × List Invocation // Reached world.1 world.2 }
  session world := world.1.1
  related before after := before.1.2 ⊆ after.1.2
  blamed before _ after := ∃ more, before.1.2 ⊆ more ∧ Reached after more
  fine world call := call ∈ world.1.2
  refl _ := List.Subset.refl _
  trans := List.Subset.trans
  failing one two := two.imp fun _ => And.imp_left (List.Subset.trans one)
  later one known := one known
  retrace world trace := ⟨⟨(_, _), world.2.retrace trace⟩, rfl, List.Subset.refl _⟩
  complain {world _} _ _ := ⟨_, List.Subset.refl _, world.2⟩
  expand {world call} mem := by
    cases run : MacroScript.expand call world.1.1 with
    | error fault after => exact ⟨_, List.Subset.refl _, world.2.fail mem run⟩
    | ok expansion after =>
      refine ⟨⟨(_, _), world.2.expand mem run⟩, rfl, List.subset_append_right _ _, ?_⟩
      intro inner innerMem
      exact List.mem_append_left _ (Leaf.mem_calls.mpr innerMem)

theorem exists_of_meets {α : Type} (reached : Reached session calls)
    {post : α → upkeep.World → Prop} {result : EStateM.Result Fault Session α}
    (met : upkeep.Meets ⟨(session, calls), reached⟩ post result) :
    ∃ more, calls ⊆ more ∧ Reached (final result) more := by
  cases result with
  | error fault after => exact met
  | ok value after =>
    obtain ⟨world, rfl, wider, -⟩ := met
    exact ⟨_, wider, world.2⟩

/-- Compiling leads from a reached session to a reached one, whether it comes to a program or to a
fault, if the calls of the program were read in that session. -/
theorem compile (options : CompileOptions) {program : Program} (reached : Reached session calls)
    (known : ∀ call, .call call ∈ Leaf.ofProgram program → call ∈ calls) :
    ∃ more, calls ⊆ more ∧ Reached (final (MacroScript.compile options program session)) more :=
  reached.exists_of_meets (upkeep.compile options known)

/-- In particular a source is read and expanded in a reached session. -/
theorem expandSource (options : CompileOptions) (source : String)
    (reached : Reached session calls) :
    ∃ more, calls ⊆ more ∧
      Reached (final (MacroScript.expandSource options source session)) more := by
  have reads : upkeep.Meets ⟨(session, calls), reached⟩
      (fun program world => ∀ call, .call call ∈ Leaf.ofProgram program → upkeep.fine world call)
      (readProgram source session) := by
    cases run : readProgram source session with
    | error fault after => exact ⟨calls, List.Subset.refl _, reached.misread run⟩
    | ok program after =>
      refine ⟨⟨(_, _), reached.read run⟩, rfl, List.subset_append_right _ _, ?_⟩
      intro call mem
      exact List.mem_append_left _ (Leaf.mem_calls.mpr mem)
  exact reached.exists_of_meets
    (upkeep.bind reads fun _ _ _ known => upkeep.compile options known)

end Session.Reached

end MacroScript
