import MacroScript.Proofs.Splicing.Upkeep
import MacroScript.Proofs.Blame.Transcript
import MacroScript.Proofs.Matching.Shape
import MacroScript.Proofs.FullExpansion
import MacroScript.Proofs.Lossless

/-!
# Compiling never blames the compiler

Some faults would show that an invariant of the compiler is broken: a call of a macro that
is not registered, a name of an expansion without an origin, a variable without its
fragment, a macro node that is printed.  None of them occurs.  Every call that comes up
while a source is compiled can be expanded, or fails because of the source or of a macro.
-/

namespace MacroScript

open MacroScript.Grammar

variable {call : Invocation} {session : Session}

/-! ## Reading -/

theorem malformed_of_tokenize {source : String} {fault : Fault}
    (run : tokenize source = .error fault) : fault.cause.kind = .malformed := by
  obtain ⟨before, word, after, problem, -, -, rfl⟩ := (scans_tokenize source).exists_piece run
  rfl

namespace Session

variable {tokens : List Token} {outer : ScopeStack} {hygiene : Option Hygiene}

/-- The tokens of an expansion that begins to be read have origins. -/
theorem traced_reader
    (enough : ∀ first, hygiene = some first → tokens.length ≤ first.origins.size) :
    (session.reader tokens outer hygiene).Traced := by
  intro first hygienic
  rcases Cursor.exists_take_ofTokens tokens with ⟨count, taken⟩
  have size : (Cursor.ofTokens tokens).tokens.size ≤ tokens.length := by
    rw [taken, List.size_toArray, List.length_take]
    exact Nat.min_le_right _ _
  exact Nat.le_trans size (enough first hygienic)

/-- Tokens stay traced on a walk. -/
theorem traced_of_walk {places : List Place} {after : Reader}
    (traced : (session.reader tokens outer hygiene).Traced)
    (walk : Walk (session.reader tokens outer hygiene) places after) : after.Traced := by
  intro last hygienic
  have toward : after.context.Toward last := ⟨last, hygienic, rfl, rfl, rfl, id⟩
  obtain ⟨first, firstHygienic, within⟩ := (walk.advances fresh_reader.nonempty).toward toward
  rw [(walk.forward ready_reader).tokens, ← within.origins]
  exact traced first firstHygienic

/-- Reading a program in a session settles, and its calls are calls of registered macros. -/
theorem settled_read_program (outer : ScopeStack) (registered : session.Registered)
    (enough : ∀ first, hygiene = some first → tokens.length ≤ first.origins.size) :
    Settled session
      (fun found after =>
        ∀ call, Leaf.call call ∈ Leaf.ofProgram found.1 → call.Registered after)
      (read Grammar.program tokens outer hygiene session) := by
  cases run : read Grammar.program tokens outer hygiene session with
  | ok found after =>
    rcases found with ⟨program, state⟩
    rcases read_eq_ok yields_program run with ⟨final, places, -, rfl, walk, seen⟩
    rcases walk.registered_of_session registered with ⟨finalRegistered, calls⟩
    have advances := walk.advances fresh_reader.nonempty
    apply Settled.ok finalRegistered ((Grows.allocScope session).trans advances.grows)
    intro call mem
    rw [seen, List.mem_map] at mem
    rcases mem with ⟨⟨index, leaf⟩, placeMem, rfl⟩
    exact calls index call placeMem
  | error fault after =>
    have walked := yields_program (session.reader tokens outer hygiene) ready_reader
    rw [reader_state] at walked
    unfold read at run
    cases outcome : Grammar.program (session.readerState tokens outer hygiene) with
    | ok program state => simp [outcome] at run
    | error other state =>
      rw [outcome] at walked run
      obtain ⟨final, places, -, walk, blame⟩ := walked
      simp only [EStateM.Result.error.injEq] at run
      exact .error (.of_malformed (run.1 ▸ blame (traced_of_walk (traced_reader enough) walk)))

theorem settled_readProgram {source : String} (registered : session.Registered) :
    Settled session
      (fun program after =>
        ∀ call, Leaf.call call ∈ Leaf.ofProgram program → call.Registered after)
      (readProgram source session) := by
  unfold readProgram
  cases scanned : tokenize source with
  | error fault => exact .throw (.of_malformed (malformed_of_tokenize scanned))
  | ok tokens =>
    apply Settled.bind (settled_read_program [] registered (by simp))
    rintro ⟨program, state⟩ after afterRegistered _ calls
    exact .pure afterRegistered calls

end Session

/-! ## Expanding one call -/

theorem settled_definitionOf (registered : session.Registered) (known : call.Registered session) :
    Settled session (fun _ _ => True) (definitionOf call session) := by
  rcases known.exists_definition with ⟨definition, found⟩
  have run : definitionOf call session = .ok definition session := by
    simp only [definitionOf, bind, EStateM.bind, Outcome.get_run, found]
    rfl
  rw [run]
  exact .ok registered (.refl session) trivial

/-- Choosing a rule settles, and the variables are bound to fragments with as many levels as
there are groups around them. -/
theorem Matching.settled_firstMatch (call : Invocation) (macroName : String) (rules : List Rule)
    (registered : session.Registered) :
    Settled session (fun chosen _ => chosen.2.2.Leveled 0)
      (firstMatch call macroName 0 rules session) := by
  have blames : ∀ fault, Complains call macroName rules fault → fault.External := by
    rintro _ (rfl | ⟨rule, -, name, span, -, rfl⟩)
    · exact .expansion macroName call.span _
    · exact .expansion macroName span _
  have known := ensures_firstMatch call macroName 0 rules blames session (.refl session)
  cases run : firstMatch call macroName 0 rules session with
  | error fault after =>
    rw [run] at known
    exact .error known.2
  | ok chosen after =>
    rw [run] at known
    have tried := known.1
    obtain ⟨-, before, matchRun⟩ := firstMatch_eq_ok run
    exact .ok (tried.registered registered) tried.keeps.quiet.grows
      (leveled_of_matchPattern matchRun)

/-- Matching a call of a registered macro settles. -/
theorem settled_matchCall (registered : session.Registered) (known : call.Registered session) :
    Settled session (fun chosen _ => chosen.2.2.Leveled 0) (Matching.matchCall call session) := by
  apply Settled.bind (settled_definitionOf registered known)
  intro definition after afterRegistered _ _
  exact Matching.settled_firstMatch call definition.name definition.rules afterRegistered

/-- Expanding a call of a registered macro settles, and the calls of the expansion are calls of
registered macros. -/
theorem settled_expand (registered : session.Registered) (known : call.Registered session) :
    Settled session
      (fun expansion after =>
        ∀ inner, Leaf.call inner ∈ Leaf.ofProgram expansion.program → inner.Registered after)
      (expand call session) := by
  apply Settled.bind (settled_definitionOf registered known)
  intro definition first firstRegistered firstGrows _
  apply Settled.bind (settled_matchCall firstRegistered (known.grows firstGrows))
  rintro ⟨number, rule, bindings⟩ matching matchingRegistered _ leveled
  simp only
  cases transcribed : transcribe definition.name bindings rule.template with
  | error fault =>
    exact .throw (Transcript.blamed_of_transcribe
      ⟨fun _ _ => .expansion _ _ _, fun _ _ => .malformed _ _⟩ leveled transcribed)
  | ok transcript =>
    have read : Settled matching
        (fun found after =>
          ∀ inner, Leaf.call inner ∈ Leaf.ofProgram found.1 → inner.Registered after)
        (Expansion.readTranscript definition call transcript matching) := by
      have enough : ∀ first, some (Expansion.hygieneOf definition call transcript) = some first →
          (transcript.map Prod.fst).length ≤ first.origins.size := by
        rintro _ ⟨⟩
        simp [Expansion.hygieneOf]
      have settled := Session.settled_read_program definition.scopes matchingRegistered enough
      unfold Expansion.readTranscript
      rw [Expansion.hygieneOf] at settled
      simp only
      generalize Session.read Grammar.program _ _ _ matching = outcome at settled
      cases settled with
      | @ok value after afterRegistered grows calls => exact .ok afterRegistered grows calls
      | error external => exact .error (external.whileExpanding _ _)
    apply Settled.bind read
    rintro ⟨program, color⟩ after afterRegistered _ calls
    exact .pure afterRegistered calls

/-- An expansion that was performed left macros registered, also those of its calls. -/
theorem Performed.registered (performed : Performed) (before : performed.before.Registered)
    (known : performed.call.Registered performed.before) :
    performed.after.Registered ∧
      ∀ call ∈ Leaf.calls (Leaf.ofProgram performed.program), call.Registered performed.after := by
  have matched := settled_matchCall before known
  rw [performed.matched] at matched
  cases matched with
  | ok matchingRegistered grows leveled =>
    rcases performed.walk.registered_of_session matchingRegistered with ⟨after, calls⟩
    constructor
    · exact after
    · intro call mem
      rw [Leaf.mem_calls, performed.leaves, List.mem_map] at mem
      rcases mem with ⟨⟨index, leaf⟩, placeMem, rfl⟩
      exact calls index call placeMem

/-- Whatever a run has reached, the calls that wait are calls of registered macros. -/
theorem Run.registered {calls waiting : List Invocation} {start : Session}
    {history : List Performed} (run : Run calls start history waiting session)
    (startRegistered : start.Registered) (known : ∀ call ∈ calls, call.Registered start) :
    session.Registered ∧ ∀ call ∈ waiting, call.Registered session := by
  induction run with
  | start => exact ⟨startRegistered, known⟩
  | retrace run trace ih => exact ih
  | @expand history performed rest run ih =>
    rcases ih with ⟨beforeRegistered, waitingKnown⟩
    rcases List.forall_mem_cons.mp waitingKnown with ⟨callKnown, restKnown⟩
    rcases performed.registered beforeRegistered callKnown with ⟨afterRegistered, newKnown⟩
    constructor
    · exact afterRegistered
    · intro call mem
      rcases List.mem_append.mp mem with new | old
      · exact newKnown call new
      · exact (restKnown call old).grows performed.grows

/-! ## Compiling -/

/-- Sessions with registered macros, and calls of such macros. -/
def registering : Upkeep where
  World := Session
  session world := world
  related before after := before.Grows after ∧ (before.Registered → after.Registered)
  blamed _ fault _ := fault.External
  fine session call := session.Registered ∧ call.Registered session
  refl session := ⟨.refl session, id⟩
  trans one two := ⟨one.1.trans two.1, two.2 ∘ one.2⟩
  failing _ := id
  later one known := ⟨one.2 known.1, known.2.grows one.1⟩
  retrace _ _ := ⟨_, rfl, ⟨Nat.le_refl _, id, Nat.le_refl _⟩, id⟩
  complain _ _ := .expansion _ _ _
  expand {session call} known := by
    have settled := settled_expand known.1 known.2
    generalize expand call session = outcome at settled
    cases settled with
    | ok registered grows calls =>
      exact ⟨_, rfl, ⟨grows, fun _ => registered⟩,
        fun inner mem => ⟨registered, calls inner mem⟩⟩
    | error external => exact external

/-- Reading, expanding and printing a unit settles in every session with registered macros. -/
theorem settled_compileUnit (options : CompileOptions) (source : String)
    (registered : session.Registered) :
    Settled session (fun _ _ => True) (compileUnit options source session) := by
  have expanded : Settled session
      (fun program _ => ∃ printed, generate options program (some source) = .ok printed)
      (expandSource options source session) := by
    apply Settled.bind (Session.settled_readProgram registered)
    intro program start startRegistered _ known
    have settled : registering.Meets start (fun _ _ => True) (compile options program start) :=
      registering.compile options fun call mem => ⟨startRegistered, known call mem⟩
    cases run : compile options program start with
    | ok result after =>
      rw [run] at settled
      obtain ⟨_, rfl, ⟨grows, keeps⟩, -⟩ := settled
      exact .ok (keeps startRegistered) grows
        ((print_isOk_iff result _).mpr (macroFree_compile run))
    | error fault after =>
      rw [run] at settled
      exact .error settled
  apply Settled.bind expanded
  rintro program after afterRegistered _ ⟨printed, generated⟩
  simp only [generated]
  exact .pure afterRegistered trivial

/-- Compiling a source succeeds, or complains about the source or about a macro.  On the way
every call that waits refers to a registered macro, and expanding it breaks no invariant of
the compiler; what is expanded has no macro nodes and can be printed. -/
theorem compileSource_never_blames_compiler (options : CompileOptions) (source : String) :
    (∀ diagnostic, compileSource options source = .error diagnostic →
      diagnostic.kind = .malformed ∨ diagnostic.kind = .expansion) ∧
    (∀ program start, Session.readProgram source {} = .ok program start →
      ∀ history waiting session,
        Run (Leaf.calls (Leaf.ofProgram program)) start history waiting session →
          ∀ call ∈ waiting,
            (∃ definition, session.macros.get? call.macroId = some definition) ∧
              ∀ fault after, expand call session = .error fault after →
                fault.cause.kind ≠ .internal) ∧
    (∀ program after, expandSource options source {} = .ok program after →
      MacroFree (Leaf.ofProgram program) ∧
        ∃ printed, generate options program (some source) = .ok printed) := by
  refine ⟨?_, ?_, ?_⟩
  · intro diagnostic run
    have settled := settled_compileUnit options source Session.Registered.empty
    unfold compileSource at run
    generalize compileUnit options source {} = outcome at settled run
    cases settled with
    | ok registered grows _ => cases run
    | @error fault after external =>
      cases run
      have kind : fault.cause.kind ≠ .internal := external
      change fault.cause.kind = .malformed ∨ fault.cause.kind = .expansion
      revert kind
      cases fault.cause.kind <;> simp
  · intro program start readRun history waiting session run call mem
    rcases Session.registered_readProgram Session.Registered.empty readRun with
      ⟨startRegistered, known⟩
    rcases run.registered startRegistered known with ⟨registered, waitingKnown⟩
    constructor
    · exact (waitingKnown call mem).exists_definition
    · intro fault after expandRun
      have settled := settled_expand registered (waitingKnown call mem)
      rw [expandRun] at settled
      cases settled with
      | error external => exact external
  · intro program after run
    rw [expandSource, Outcome.bind_eq_ok_iff] at run
    rcases run with ⟨read, start, -, compileRun⟩
    have macroFree := macroFree_compile compileRun
    exact ⟨macroFree, (print_isOk_iff program _).mpr macroFree⟩

/-- A call whose groups do not have the same number of rounds. -/
def unevenGroups : String :=
  "macro pairs \x7b ($( $x:ident ), ; $( $y:ident ),) => \x7b f($( $x + $y ),) \x7d \x7d " ++
    "pairs(a, b; c);"

/-- The macro is blamed for `unevenGroups`, and `nestedCalls` is expanded and printed. -/
theorem unevenGroups_blames_macro :
    (∃ diagnostic, compileSource {} unevenGroups = .error diagnostic ∧
      (diagnostic.kind = .malformed ∨ diagnostic.kind = .expansion)) ∧
    (∃ program start call,
      Session.readProgram unevenGroups {} = .ok program start ∧
        call ∈ Leaf.calls (Leaf.ofProgram program) ∧
          (∃ definition, start.macros.get? call.macroId = some definition) ∧
            ∃ fault after, expand call start = .error fault after ∧
              fault.cause.kind ≠ .internal) ∧
    (∃ program after, expandSource {} nestedCalls {} = .ok program after ∧
      MacroFree (Leaf.ofProgram program) ∧
        ∃ printed, generate {} program (some nestedCalls) = .ok printed) := by
  have rejected : (compileSource {} unevenGroups).isOk = false := by decide +kernel
  have failing : Outcome.yields
      (fun found : Program × Session => (Leaf.calls (Leaf.ofProgram found.1)).any
        fun call => !(Outcome.answer (expand call found.2)).isOk)
      ((do return (← Session.readProgram unevenGroups, ← get) : SessionM (Program × Session)) {}) =
        true := by
    decide +kernel
  have accepted : Outcome.yields (fun _ => true) (expandSource {} nestedCalls {}) = true := by
    decide +kernel
  refine ⟨?_, ?_, ?_⟩
  · cases run : compileSource {} unevenGroups with
    | ok printed =>
      rw [run] at rejected
      cases rejected
    | error diagnostic =>
      exact ⟨diagnostic, rfl, (compileSource_never_blames_compiler {} unevenGroups).1 _ run⟩
  · rcases Outcome.exists_ok_of_yields failing with ⟨⟨program, start⟩, after, run, fails⟩
    simp only [Outcome.bind_eq_ok_iff, Outcome.pure_eq_ok_iff, Outcome.get_run] at run
    rcases run with ⟨_, _, readRun, _, _, ⟨rfl, rfl⟩, ⟨rfl, rfl⟩, rfl⟩
    rcases List.any_eq_true.mp fails with ⟨call, mem, callFails⟩
    rcases (compileSource_never_blames_compiler {} unevenGroups).2.1 _ _ readRun _ _ _ .start call
      mem with ⟨known, external⟩
    refine ⟨_, _, call, readRun, mem, known, ?_⟩
    cases expandRun : expand call start with
    | ok expansion after =>
      simp only [expandRun] at callFails
      cases callFails
    | error fault after => exact ⟨fault, after, rfl, external fault after expandRun⟩
  · rcases Outcome.exists_ok_of_yields accepted with ⟨program, after, run, -⟩
    exact ⟨program, after, run, (compileSource_never_blames_compiler {} nestedCalls).2.2 _ _ run⟩

end MacroScript
