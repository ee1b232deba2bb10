import MacroScript.Proofs.Hygiene.Source
import MacroScript.Proofs.Transcript

/-!
# Expansions that were performed

A performed expansion is a call that was expanded together with everything that happened on
the way: the rule that was chosen, the transcript, and the walk that read it.  Every
successful expansion is one.

What is recorded and how names are resolved on the way is known from the walk.
-/

namespace MacroScript

open MacroScript.Grammar MacroScript.Outcome

variable {call : Invocation} {session : Session} {definition : MacroDef}
  {transcript : List Transcript.Placed}

namespace Expansion

/-- The hygiene with which a transcript begins to be read. -/
def hygieneOf (definition : MacroDef) (call : Invocation) (transcript : List Transcript.Placed) :
    Hygiene where
  origins := (transcript.map Prod.snd).toArray
  declarationScopes := definition.scopes
  invocationScopes := call.scopes

/-- The parser that begins to read a transcript. -/
def readerOf (definition : MacroDef) (call : Invocation) (transcript : List Transcript.Placed)
    (session : Session) : Reader :=
  session.reader (transcript.map Prod.fst) definition.scopes
    (some (hygieneOf definition call transcript))

end Expansion

/-- An expansion with everything that happened on the way. -/
structure Performed where
  call : Invocation
  /-- The session in which the call was expanded. -/
  before : Session
  definition : MacroDef
  number : Nat
  rule : Rule
  bindings : Bindings
  /-- The session after the arguments were matched. -/
  matching : Session
  transcript : List Transcript.Placed
  /-- The leaves of the expansion, with the indices of their tokens in the transcript. -/
  places : List Place
  final : Reader
  program : Program
  expanded : expand call before =
    .ok ⟨program, final.context.hygiene.bind Hygiene.color, number⟩ final.context.session
  known : before.macros.get? call.macroId = some definition
  matched : Matching.matchCall call before = .ok (number, rule, bindings) matching
  transcribed : transcribe definition.name bindings rule.template = .ok transcript
  walk : Walk (Expansion.readerOf definition call transcript matching) places final
  leaves : Leaf.ofProgram program = places.map Prod.snd

namespace Performed

/-- The session after the expansion. -/
def after (performed : Performed) : Session :=
  performed.final.context.session

/-- The color of the expansion, if it has one. -/
def color (performed : Performed) : Option Color :=
  performed.final.context.hygiene.bind Hygiene.color

/-- The token of the transcript at an index. -/
def tokens (performed : Performed) : Nat → Token :=
  (Cursor.ofTokens (performed.transcript.map Prod.fst)).tokenAt

/-- The hygiene of the expansion, with the color that was claimed. -/
def hygiene (performed : Performed) : Hygiene :=
  { Expansion.hygieneOf performed.definition performed.call performed.transcript with
    color := performed.color }

/-- The origin of the token at an index. -/
def origin? (performed : Performed) (index : Nat) : Option Origin :=
  performed.hygiene.origins[index]?

/-- The decisions that the expansion records. -/
def decisions (performed : Performed) : List Decision :=
  Grammar.decisions performed.hygiene performed.tokens performed.places

/-- The places up to an index. -/
def placesUpTo (performed : Performed) (limit : Nat) : List Place :=
  performed.places.filter (·.1 ≤ limit)

/-- The decisions that are recorded up to an index. -/
def decisionsUpTo (performed : Performed) (limit : Nat) : List Decision :=
  Grammar.decisions performed.hygiene performed.tokens (performed.placesUpTo limit)

/-- The expansion of a call in a session, with its result. -/
structure Expands (performed : Performed) (call : Invocation) (session : Session)
    (expansion : Expansion) (after : Session) : Prop where
  call : performed.call = call
  before : performed.before = session
  program : performed.program = expansion.program
  color : performed.color = expansion.color
  after : performed.after = after

end Performed

/-! ## Every expansion is performed -/

theorem definitionOf_eq_ok {after : Session}
    (run : definitionOf call session = .ok definition after) :
    session.macros.get? call.macroId = some definition ∧ after = session := by
  simp only [definitionOf, bind_eq_ok_iff, get_run, EStateM.Result.ok.injEq] at run
  obtain ⟨_, _, ⟨rfl, rfl⟩, run⟩ := run
  cases found : session.macros.get? call.macroId with
  | none =>
    simp only [found] at run
    exact absurd run throw_ne_ok
  | some known =>
    simp only [found, pure_eq_ok_iff] at run
    exact ⟨congrArg some run.1, run.2.symm⟩

/-- Reading a transcript is a walk. -/
theorem Expansion.readTranscript_eq_ok {after : Session} {program : Program} {color : Option Color}
    (run : readTranscript definition call transcript session = .ok (program, color) after) :
    ∃ places final, Walk (readerOf definition call transcript session) places final ∧
      Leaf.ofProgram program = places.map Prod.snd ∧ after = final.context.session ∧
        color = final.context.hygiene.bind Hygiene.color := by
  unfold readTranscript at run
  simp only at run
  cases outcome : Session.read Grammar.program (transcript.map Prod.fst) definition.scopes
      (some (hygieneOf definition call transcript)) session with
  | error fault failed =>
    rw [hygieneOf] at outcome
    simp [outcome] at run
  | ok value last =>
    rcases value with ⟨result, state⟩
    obtain ⟨final, places, rfl, rfl, walk, seen⟩ := Session.read_eq_ok yields_program outcome
    rw [hygieneOf] at outcome
    simp only [outcome, EStateM.Result.ok.injEq, Prod.mk.injEq] at run
    obtain ⟨⟨rfl, rfl⟩, rfl⟩ := run
    exact ⟨places, final, walk, seen, rfl, rfl⟩

theorem exists_performed {after : Session} {expansion : Expansion}
    (run : expand call session = .ok expansion after) :
    ∃ performed : Performed, performed.Expands call session expansion after := by
  have expanded := run
  simp only [expand, bind_eq_ok_iff] at run
  obtain ⟨definition, first, definitionRun, ⟨number, rule, bindings⟩, matching, matched, run⟩ := run
  obtain ⟨known, rfl⟩ := definitionOf_eq_ok definitionRun
  cases transcribed : transcribe definition.name bindings rule.template with
  | error fault =>
    simp only [transcribed] at run
    exact absurd run throw_ne_ok
  | ok transcript =>
    simp only [transcribed, bind_eq_ok_iff, pure_eq_ok_iff] at run
    obtain ⟨⟨program, color⟩, last, readRun, rfl, rfl⟩ := run
    obtain ⟨places, final, walk, leaves, rfl, rfl⟩ := Expansion.readTranscript_eq_ok readRun
    exact
      ⟨{ call, before := first, definition, number, rule, bindings, matching, transcript,
         places, final, program, expanded, known, matched, transcribed, walk, leaves },
        rfl, rfl, rfl, rfl, rfl⟩

/-! ## What an expansion does -/

/-- In a sound session, a parser begins soundly to read what a sound call is transcribed to. -/
theorem Expansion.sound_readerOf {rule : Rule} (sound : session.Sound)
    (callSound : call.Sound session) (known : session.macros.get? call.macroId = some definition)
    (ruleMem : rule ∈ definition.rules)
    (placedFrom : ∀ placed ∈ transcript, Transcript.PlacedFrom call rule.template placed) :
    (readerOf definition call transcript session).Sound := by
  have givenOut : ∀ token ∈ transcript.map Prod.fst,
      GivenOut session.lastColor token.color := by
    intro token mem
    obtain ⟨⟨placed, origin⟩, placedMem, rfl⟩ := List.mem_map.mp mem
    have source := placedFrom _ placedMem
    cases origin with
    | body => exact sound.templates known _ ruleMem placed source
    | invocation =>
      obtain ⟨captured, newline, fromCall, rfl⟩ := source
      rcases fromCall with tokenMem | ⟨text, place, -, rfl⟩
      · exact callSound.tokens captured tokenMem
      · exact GivenOut.none
  apply Session.sound_reader sound _ givenOut
  · intro first started
    obtain rfl := Option.some.inj started
    rfl
  · intro id mem
    exact (sound.scopes known).inside mem

namespace Performed

variable (performed : Performed) {place : Place} {index : Nat}

theorem matched_spec :
    Matching.Tried performed.call performed.before performed.matching ∧
      performed.rule ∈ performed.definition.rules ∧
        Matching.BindingsFrom performed.call performed.bindings := by
  have run := performed.matched
  simp only [Matching.matchCall, bind_eq_ok_iff] at run
  obtain ⟨definition, first, definitionRun, firstRun⟩ := run
  obtain ⟨known, rfl⟩ := definitionOf_eq_ok definitionRun
  obtain rfl : performed.definition = definition := by
    rw [performed.known, Option.some.injEq] at known
    exact known
  exact (Matching.ensures_firstMatch performed.call performed.definition.name 0
    performed.definition.rules fun _ _ => trivial).of_ok (.refl performed.before) firstRun

variable {performed} in
/-- The scopes of the macro are scopes of the session. -/
theorem scopes_inside (sound : performed.before.Sound) :
    ∀ id ∈ performed.definition.scopes, id < performed.before.scopes.size := by
  intro id mem
  exact (sound.scopes performed.known).inside mem

theorem quiet_matching : performed.before.Quiet performed.matching :=
  performed.matched_spec.1.keeps.quiet

theorem placedFrom : ∀ placed ∈ performed.transcript,
    Transcript.PlacedFrom performed.call performed.rule.template placed :=
  Transcript.placedFrom_transcribe performed.matched_spec.2.2 performed.transcribed

theorem advances :
    Context.Advances
      (Expansion.readerOf performed.definition performed.call performed.transcript
        performed.matching).context performed.final.context :=
  performed.walk.advances Session.fresh_reader.nonempty

theorem grows : performed.before.Grows performed.after :=
  (performed.quiet_matching.grows.trans (Session.Grows.allocScope _)).trans
    performed.advances.grows

/-- The hygiene at the end is that of the beginning, perhaps with a color.  A color that is
claimed is the next one. -/
theorem claims :
    performed.final.context.hygiene = some performed.hygiene ∧
      ((performed.color = none ∧ performed.after.lastColor = performed.before.lastColor) ∨
        (performed.color = some (performed.before.lastColor + 1) ∧
          performed.after.lastColor = performed.before.lastColor + 1)) := by
  have claims := performed.advances.claims
  have last : (Expansion.readerOf performed.definition performed.call performed.transcript
      performed.matching).context.session.lastColor = performed.before.lastColor :=
    performed.quiet_matching.color
  rw [last] at claims
  unfold hygiene color after
  revert claims
  generalize performed.final.context.hygiene = reached
  generalize performed.final.context.session.lastColor = high
  intro claims
  cases claims with
  | keep => exact ⟨rfl, .inl ⟨rfl, rfl⟩⟩
  | claim free => exact ⟨rfl, .inr ⟨rfl, rfl⟩⟩

theorem toward : performed.final.context.Toward performed.hygiene :=
  ⟨performed.hygiene, performed.claims.1, rfl, rfl, rfl, id⟩

/-- The expansion records its decisions, and its names are resolved with them. -/
theorem resolved (inside : ∀ id ∈ performed.definition.scopes, id < performed.before.scopes.size) :
    performed.after.scopes.AgreeBelow performed.before.scopes.size
        (performed.before.scopes.replay performed.decisions) ∧
      Grammar.Resolved performed.hygiene performed.tokens performed.before.scopes
        performed.places := by
  have quiet := performed.quiet_matching
  have fresh : (Expansion.readerOf performed.definition performed.call performed.transcript
      performed.matching).context.Fresh performed.before.scopes.size := by
    obtain ⟨head, outer, stack, above⟩ := (Session.fresh_reader : Context.Fresh _
      (Expansion.readerOf performed.definition performed.call performed.transcript
        performed.matching).context).innermost
    exact
      ⟨Nat.le_trans quiet.grows.scopes (Session.Grows.allocScope _).scopes,
        head, outer, stack, Nat.le_trans quiet.grows.scopes above⟩
  have begins : performed.matching.allocScope.scopes.AgreeBelow performed.before.scopes.size
      performed.before.scopes :=
    (ScopeStore.AgreeBelow.alloc quiet.grows.scopes).trans quiet.scopes
  have walked := performed.walk.resolved Session.ready_reader rfl fresh inside performed.toward
  exact ⟨walked.1.trans (begins.replay _), walked.2.congr inside begins⟩

theorem pairwise_places : performed.places.Pairwise fun first second => first.1 < second.1 :=
  List.pairwise_map.mp (performed.walk.ordered Session.ready_reader).1

theorem mem_placesUpTo {limit : Nat} :
    place ∈ performed.placesUpTo limit ↔ place ∈ performed.places ∧ place.1 ≤ limit := by
  simp [placesUpTo]

/-- The places up to the index of a place end with that place. -/
theorem placesUpTo_of_split {earlier later : List Place}
    (split : performed.places = earlier ++ place :: later) :
    performed.placesUpTo place.1 = earlier ++ [place] := by
  have ordered := performed.pairwise_places
  rw [split, List.pairwise_append, List.pairwise_cons] at ordered
  have early : earlier.filter (fun other => other.1 ≤ place.1) = earlier := by
    apply List.filter_eq_self.mpr
    intro other mem
    exact decide_eq_true (Nat.le_of_lt (ordered.2.2 other mem place List.mem_cons_self))
  have late : later.filter (fun other => other.1 ≤ place.1) = [] := by
    apply List.filter_eq_nil_iff.mpr
    intro other mem isLe
    exact Nat.not_le_of_lt (ordered.2.1.1 other mem) (of_decide_eq_true isLe)
  rw [placesUpTo, split, List.filter_append, List.filter_cons, early, late,
    if_pos (decide_eq_true (Nat.le_refl _))]

/-- A name is resolved with the decisions recorded up to its place. -/
theorem resolves (inside : ∀ id ∈ performed.definition.scopes, id < performed.before.scopes.size)
    (mem : place ∈ performed.places) {color : Option Color}
    (uses : Uses performed.tokens place index color) :
    Resolves performed.hygiene performed.tokens
      (performed.before.scopes.replay (performed.decisionsUpTo place.1)) index color := by
  obtain ⟨earlier, later, split⟩ := List.append_of_mem mem
  have resolved := (performed.resolved inside).2
  rw [split, resolved_append] at resolved
  rw [decisionsUpTo, performed.placesUpTo_of_split split, decisions_append,
    ScopeStore.replay_append]
  exact resolved.2.1 index color uses

/-- In a sound session, sound calls lead to a sound session and to sound calls. -/
theorem sound (sound : performed.before.Sound) (callSound : performed.call.Sound performed.before) :
    performed.after.Sound ∧ CallsSound performed.after performed.places := by
  obtain ⟨tried, ruleMem, -⟩ := performed.matched_spec
  have keeps := tried.keeps
  have known := keeps.quiet.grows.macros performed.known
  have matchingSound := keeps.sound sound callSound
  have matchingCall := callSound.grows keeps.quiet.grows
  have walked := performed.walk.sound Session.ready_reader
    (Expansion.sound_readerOf matchingSound matchingCall known ruleMem performed.placedFrom)
  exact ⟨walked.1.session, walked.2⟩

theorem madeOf : ∀ place ∈ performed.places,
    MadeOf performed.tokens performed.final.cursor.index place :=
  (performed.walk.madeOf Session.ready_reader rfl).1

/-- A token that was read belongs to the transcript, with its origin. -/
theorem placed_of_lt (read : index < performed.final.cursor.index) :
    ∃ origin, performed.origin? index = some origin ∧
      (performed.tokens index, origin) ∈ performed.transcript := by
  have forward := performed.walk.forward Session.ready_reader
  have inside : index <
      (Cursor.ofTokens (performed.transcript.map Prod.fst)).tokens.size :=
    Nat.lt_of_lt_of_le read forward.inside
  have found := Cursor.getElem?_of_lt inside
  rw [List.getElem?_map, Option.map_eq_some_iff] at found
  obtain ⟨⟨token, origin⟩, placed, token_eq⟩ := found
  have origin_eq : performed.origin? index = some origin := by
    simp [origin?, hygiene, Expansion.hygieneOf, placed]
  obtain rfl : token = performed.tokens index := token_eq
  exact ⟨origin, origin_eq, List.mem_of_getElem? placed⟩

/-- A token of the arguments was captured by the call. -/
theorem captured_of_invocation (read : index < performed.final.cursor.index)
    (invocation : performed.origin? index = some .invocation) :
    ∃ token newline, Matching.FromCall performed.call token ∧
      performed.tokens index = { token with newlineBefore := newline } := by
  obtain ⟨origin, origin_eq, mem⟩ := performed.placed_of_lt read
  obtain rfl : origin = .invocation := Option.some.inj (origin_eq.symm.trans invocation)
  exact performed.placedFrom _ mem

/-- The decisions of an expansion have the color of the expansion or colors of its arguments. -/
theorem givenOut_decisions (callSound : performed.call.Sound performed.before) :
    ∀ decision ∈ performed.decisions, GivenOut performed.after.lastColor decision.color := by
  intro decision mem
  obtain ⟨place, placeMem, recorded⟩ := List.mem_filterMap.mp mem
  obtain ⟨index, identifier, rfl, -, origin⟩ := decision?_eq_some recorded
  rcases origin with ⟨-, -, own⟩ | ⟨invocation, -, carried⟩
  · rw [own, GivenOut]
    intro given claimed
    rcases performed.claims.2 with ⟨none, -⟩ | ⟨next, last⟩
    · cases none.symm.trans claimed
    · rw [last]
      exact Nat.le_of_eq (Option.some.inj (claimed.symm.trans next))
  · obtain ⟨read, -⟩ := (performed.madeOf _ placeMem).of_binding
    obtain ⟨token, newline, fromCall, token_eq⟩ := performed.captured_of_invocation read invocation
    rw [carried, token_eq]
    rcases fromCall with captured | ⟨text, place, -, rfl⟩
    · exact (callSound.tokens token captured).mono performed.grows.colors
    · exact GivenOut.none

/-- An expansion that binds a name of its body has a color. -/
theorem exists_color {identifier : Identifier}
    (mem : (index, Leaf.binding identifier) ∈ performed.places)
    (body : performed.origin? index = some .body) : ∃ color, performed.color = some color :=
  performed.walk.claimed Session.fresh_reader.nonempty performed.toward mem body

/-- When the arguments have no colors, a name with a color was spelled by the body. -/
theorem of_colored_leaf
    (inside : ∀ id ∈ performed.definition.scopes, id < performed.before.scopes.size)
    (plain : ∀ token ∈ performed.call.tokens, token.color = none) {leaf : Identifier → Leaf}
    (isName : leaf = .binding ∨ leaf = .reference) {own : Identifier}
    (uncolored : own.sourceName = none) {color : Color}
    (mem : (index, leaf (own.applyColor color)) ∈ performed.places) :
    Mentions (index, leaf (own.applyColor color)) index ∧
      Uses performed.tokens (index, leaf (own.applyColor color)) index (some color) ∧
        performed.origin? index = some .body ∧ (performed.tokens index).identifier = own := by
  have made := performed.madeOf _ mem
  have spelled : index < performed.final.cursor.index ∧
      ∃ shade, own.applyColor? (some color) =
        (performed.tokens index).identifier.applyColor? shade := by
    rcases isName with rfl | rfl
    · exact ⟨made.of_binding.1, made.of_binding.2.2⟩
    · exact ⟨made.of_reference.1, made.of_reference.2.2⟩
  obtain ⟨read, shade, spelled⟩ := spelled
  obtain ⟨rfl, rfl⟩ := Identifier.applyColor?_injective uncolored rfl spelled
  have uses : Uses performed.tokens
      (index, leaf ((performed.tokens index).identifier.applyColor color)) index (some color) := by
    rcases isName with rfl | rfl
    · exact .binding index (some color)
    · exact .reference index (some color)
  have mentions :
      Mentions (index, leaf ((performed.tokens index).identifier.applyColor color)) index := by
    rcases isName with rfl | rfl
    · exact .binding index _
    · exact .reference index _
  refine ⟨mentions, uses, ?_, rfl⟩
  rcases performed.resolves inside mem uses with ⟨body, -⟩ | ⟨invocation, carried⟩
  · exact body
  · obtain ⟨token, newline, fromCall, token_eq⟩ := performed.captured_of_invocation read invocation
    rw [token_eq] at carried
    rcases fromCall with captured | ⟨text, place, -, rfl⟩
    · cases carried.trans (plain token captured)
    · cases carried

end Performed

end MacroScript
