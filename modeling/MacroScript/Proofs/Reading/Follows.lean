import MacroScript.Proofs.Outcome
import MacroScript.Proofs.Reading.Cursor

/-!
# Parsers that follow their leaves

A parser follows a view of its values when every run is a walk and the leaves of
the walk, behind the leaves read before, are the view of the value.  A parser that
fails has walked, too; what it left in its context matters, because a session
outlives a failed parse.

The lemmas here are one for each way in which parsers are put together, so that the
proof for a rule of the grammar has the shape of the rule.
-/

namespace MacroScript.Grammar

variable {α β : Type} {map : α → α} {parser : Parser α} {view : α → List Leaf}
  {next : α → Parser β}

/-! ## Parsers that only move -/

/-- A run that moved the cursor forward and changed nothing else.  Its value relates to
the tokens as `post` says, and it complains about source text only. -/
abbrev Moved (state : State) (post : Array Token → α → Prop)
    (result : EStateM.Result Fault State α) : Prop :=
  Outcome.Comes
    (fun value after => (∃ cursor, state.cursor.Forward cursor ∧ after = { state with cursor }) ∧
      post state.cursor.tokens value)
    (fun fault after => (∃ cursor, state.cursor.Forward cursor ∧ after = { state with cursor }) ∧
      fault.cause.kind = .malformed) result

/-- Every run of the parser moves the cursor and changes nothing else. -/
def Reads (post : Array Token → α → Prop) (parser : Parser α) : Prop :=
  ∀ state : State, state.cursor.Ready → Moved state post (parser state)

/-- A parser about whose values nothing is said. -/
abbrev Moves (parser : Parser α) : Prop :=
  Reads (fun _ _ => True) parser

namespace Reads

variable {post : Array Token → α → Prop} {later : Array Token → β → Prop}

protected theorem bind (first : Reads post parser)
    (second : ∀ value, Reads (fun tokens result => post tokens value → later tokens result)
      (next value)) : Reads later (parser >>= next) := by
  intro state ready
  apply (first state ready).bind
  rintro value _ ⟨⟨cursor, forward, rfl⟩, holds⟩
  apply (second value { state with cursor } (forward.ready ready)).imp
  · rintro result _ ⟨⟨last, lastForward, rfl⟩, resultHolds⟩
    refine ⟨⟨last, forward.trans lastForward, rfl⟩, ?_⟩
    rw [forward.tokens] at resultHolds
    exact resultHolds holds
  · rintro fault _ ⟨⟨last, lastForward, rfl⟩, kind⟩
    exact ⟨⟨last, forward.trans lastForward, rfl⟩, kind⟩

protected theorem pure {value : α} (holds : ∀ tokens, post tokens value) :
    Reads post (pure value) := by
  intro state ready
  exact ⟨⟨state.cursor, .refl ready, rfl⟩, holds _⟩

theorem ite {condition : Bool} {first second : Parser α} (one : Reads post first)
    (two : Reads post second) : Reads post (if condition then first else second) := by
  cases condition
  · exact two
  · exact one

end Reads

/-- A computation on the cursor only moves. -/
theorem moves_of_tracks {r : Renumbering} {first second : Parser α}
    (tracks : r.Tracks first second map) : Moves first := by
  obtain ⟨act, rfl, moves, -⟩ := tracks
  intro state ready
  exact comes_onCursor ((moves state.cursor ready).imp
    (fun _ next onward => ⟨⟨next, onward.toForward, rfl⟩, trivial⟩)
    fun _ next moved => ⟨⟨next, moved.1.toForward, rfl⟩, moved.2⟩)

/-- What is read first only moves the cursor. -/
theorem Reads.after {later : Array Token → β → Prop}
    (first : ({} : Renumbering).Tracks parser parser map)
    (second : ∀ value, Reads later (next value)) : Reads later (parser >>= next) := by
  refine Reads.bind (moves_of_tracks first) fun value state ready => ?_
  exact (second value state ready).imp (fun _ _ => And.imp_right fun holds _ => holds)
    fun _ _ => id

theorem reads_malformed {post : Array Token → α → Prop} (span : Span) (problem : SourceProblem) :
    Reads post (malformed span problem : Parser α) := by
  intro state ready
  exact ⟨⟨state.cursor, .refl ready, rfl⟩, rfl⟩

/-! ## Values -/

/-- Every value that the parser comes to is as `post` says. -/
def Results (post : α → Prop) (parser : Parser α) : Prop :=
  ∀ (state : State) (value : α) (after : State), parser state = .ok value after → post value

namespace Results

variable {post : α → Prop} {later : β → Prop}

protected theorem bind (results : ∀ value, Results later (next value)) :
    Results later (parser >>= next) := by
  intro state value after run
  obtain ⟨_, _, _, nextRun⟩ := Outcome.bind_eq_ok_iff.mp run
  exact results _ _ _ _ nextRun

protected theorem pure {value : α} (holds : post value) : Results post (pure value) := by
  rintro state _ after ⟨⟩
  exact holds

theorem unexpected : Results post unexpected := by
  rintro state value after ⟨⟩

theorem malformed (span : Span) (problem : SourceProblem) :
    Results post (malformed span problem) := by
  rintro state value after ⟨⟩

theorem ite {condition : Bool} {other : Parser α} (yes : Results post parser)
    (no : Results post other) : Results post (if condition then parser else other) := by
  cases condition
  · exact no
  · exact yes

theorem inScope (results : Results post parser) : Results post (inScope parser) := by
  intro state value after run
  unfold Grammar.inScope followedBy at run
  split at run
  · rename_i inner
    cases run
    exact results _ _ _ inner
  · cases run

end Results

theorem comes_followedBy {change : State → State} {state : State} {post : α → State → Prop}
    {blamed : Fault → State → Prop}
    (comes : Outcome.Comes (fun value after => post value (change after))
      (fun fault after => blamed fault (change after)) (parser state)) :
    Outcome.Comes post blamed (followedBy parser change state) := by
  unfold followedBy
  cases run : parser state <;> rw [run] at comes <;> exact comes

/-- Run a parser with a setting of whether `in` is an operator.  Afterwards it is an operator if it
was one, or if the change lasts. -/
def withIn (within lasts : Bool) (parser : Parser α) : Parser α := do
  let former ← inAllowed
  setAllowIn within
  followedBy parser fun state =>
    { state with cursor := { state.cursor with allowIn := lasts || former } }

theorem moves_setAllowIn (allowed : Bool) : Moves (setAllowIn allowed) :=
  fun state ready => ⟨⟨{ state.cursor with allowIn := allowed },
    ⟨rfl, rfl, Nat.le_refl _, ready.inside⟩, rfl⟩, trivial⟩

/-! ## Parsers that follow their leaves -/

@[simp]
theorem Context.exitScope_hygiene (context : Context) :
    context.exitScope.hygiene = context.hygiene := by
  unfold Context.exitScope
  split <;> rfl

/-- An expansion that is read has an origin for every token. -/
def Reader.Traced (reader : Reader) : Prop :=
  ∀ hygiene, reader.context.hygiene = some hygiene →
    reader.cursor.tokens.size ≤ hygiene.origins.size

/-- A run that is a walk.  When it ends with a value, the leaves read before and those of
the walk are the view of the value.  It complains about source text, or else a name of an
expansion has no origin. -/
abbrev Walked (reader : Reader) (prior : List Leaf) (view : α → List Leaf)
    (result : EStateM.Result Fault State α) : Prop :=
  Outcome.Comes
    (fun value state => ∃ after places, state = after.state ∧ Walk reader places after ∧
      view value = prior ++ places.map Prod.snd)
    (fun fault state => ∃ after places, state = after.state ∧ Walk reader places after ∧
      (after.Traced → fault.cause.kind = .malformed)) result

/-- A run that is a single action.  Its leaf is the view of the value. -/
abbrev Stepped (reader : Reader) (view : α → List Leaf)
    (result : EStateM.Result Fault State α) : Prop :=
  Outcome.Comes
    (fun value state => ∃ after places, state = after.state ∧ Step reader places after ∧
      view value = places.map Prod.snd)
    (fun fault state => ∃ after, state = after.state ∧ Step reader [] after ∧
      (after.Traced → fault.cause.kind = .malformed)) result

theorem Stepped.walked {reader : Reader} {result : EStateM.Result Fault State α}
    (stepped : Stepped reader view result) : Walked reader [] view result :=
  stepped.imp (fun _ _ ⟨after, places, same, step, seen⟩ => ⟨after, places, same, .step step, seen⟩)
    fun _ _ ⟨after, same, step, blame⟩ => ⟨after, [], same, .step step, blame⟩

/-- Every run of the parser is a walk, and its leaves show in the values. -/
def Follows (prior : List Leaf) (parser : Parser α) (view : α → List Leaf) : Prop :=
  ∀ reader : Reader, reader.cursor.Ready → Walked reader prior view (parser reader.state)

/-- The view of the parser's value is what it reads itself. -/
abbrev Yields (parser : Parser α) (view : α → List Leaf) : Prop :=
  Follows [] parser view

namespace Follows

variable {prior : List Leaf} {result : β → List Leaf}

protected theorem bind (first : Follows prior parser view)
    (second : ∀ value, Follows (view value) (next value) result) :
    Follows prior (parser >>= next) result := by
  intro reader ready
  apply (first reader ready).bind
  rintro value _ ⟨middle, places, rfl, walk, seen⟩
  apply (second value middle ((walk.forward ready).ready ready)).imp
  · rintro last _ ⟨after, later, rfl, laterWalk, laterSeen⟩
    refine ⟨after, places ++ later, rfl, walk.append laterWalk, ?_⟩
    rw [laterSeen, seen, List.map_append, List.append_assoc]
  · rintro fault _ ⟨after, later, rfl, laterWalk, blame⟩
    exact ⟨after, places ++ later, rfl, walk.append laterWalk, blame⟩

/-- What was read before may be put in front. -/
theorem frame (yields : Yields parser view) :
    Follows prior parser fun value => prior ++ view value := by
  intro reader ready
  apply (yields reader ready).imp _ fun _ _ => id
  rintro value _ ⟨after, places, rfl, walk, seen⟩
  exact ⟨after, places, rfl, walk, congrArg (prior ++ ·) seen⟩

theorem of_moves (moves : Moves parser) : Follows prior parser fun _ => prior := by
  intro reader ready
  apply (moves reader.state ready).imp
  · rintro value _ ⟨⟨cursor, forward, rfl⟩, -⟩
    exact ⟨⟨cursor, reader.context⟩, [], rfl, .step (.move forward), by simp⟩
  · rintro fault _ ⟨⟨cursor, forward, rfl⟩, kind⟩
    exact ⟨⟨cursor, reader.context⟩, [], rfl, .step (.move forward), fun _ => kind⟩

/-- Leaves may be seen in another way in the values that the parser comes to. -/
theorem reviewed {other : α → List Leaf} (follows : Follows prior parser view)
    (seen : Results (fun value => other value = view value) parser) :
    Follows prior parser other := by
  intro reader ready
  have run := follows reader ready
  cases outcome : parser reader.state with
  | error fault state =>
    rw [outcome] at run
    exact run
  | ok value state =>
    rw [outcome] at run
    obtain ⟨after, places, rfl, walk, valueSeen⟩ := run
    exact ⟨after, places, rfl, walk, (seen _ _ _ outcome).trans valueSeen⟩

/-! ### Local changes of the state -/

theorem inScope (follows : Follows prior parser view) : Follows prior (inScope parser) view := by
  intro reader ready
  apply comes_followedBy ((follows reader.enter ready).imp _ _)
  · rintro value _ ⟨after, places, rfl, walk, seen⟩
    exact ⟨after.exit, places, rfl, .enclosed walk, seen⟩
  · rintro fault _ ⟨after, places, rfl, walk, blame⟩
    refine ⟨after.exit, places, rfl, .enclosed walk, fun traced => blame fun hygiene hygienic => ?_⟩
    exact traced hygiene ((Context.exitScope_hygiene _).trans hygienic)

/-- Restoring a setting of the cursor moves nothing. -/
theorem followedBy (follows : Follows prior parser view) (allowed : Bool) :
    Follows prior
      (followedBy parser fun state =>
        { state with cursor := { state.cursor with allowIn := allowed } }) view := by
  intro reader ready
  have restored {after : Reader} {places : List Place} (walk : Walk reader places after) :
      Walk reader places ⟨{ after.cursor with allowIn := allowed }, after.context⟩ := by
    have still : after.cursor.Forward { after.cursor with allowIn := allowed } :=
      ⟨rfl, rfl, Nat.le_refl _, ((walk.forward ready).ready ready).inside⟩
    have longer := walk.append (.step (.move still))
    rwa [List.append_nil] at longer
  apply comes_followedBy ((follows reader ready).imp _ _)
  · rintro value _ ⟨after, places, rfl, walk, seen⟩
    exact ⟨_, places, rfl, restored walk, seen⟩
  · rintro fault _ ⟨after, places, rfl, walk, blame⟩
    exact ⟨_, places, rfl, restored walk, blame⟩

theorem withIn (follows : Follows prior parser view) (within lasts : Bool) :
    Follows prior (withIn within lasts parser) view :=
  (of_moves (moves_of_tracks (tracks_inAllowed (r := {})))).bind fun former =>
    (of_moves (moves_setAllowIn within)).bind fun _ => follows.followedBy (lasts || former)

end Follows

/-! ## Parsers whose values do not matter -/

/-- Every run of the parser is a walk. -/
def Walks (parser : Parser α) : Prop :=
  ∀ reader : Reader, reader.cursor.Ready →
    ∃ after places, Outcome.final (parser reader.state) = after.state ∧ Walk reader places after

theorem Follows.walks {prior : List Leaf} (follows : Follows prior parser view) :
    Walks parser := by
  intro reader ready
  have run := follows reader ready
  cases outcome : parser reader.state
  all_goals
    rw [outcome] at run
    obtain ⟨after, places, rfl, walk, -⟩ := run
    exact ⟨after, places, rfl, walk⟩

theorem Walks.discard (walks : Walks parser) : Walks (do let _ ← parser) := by
  intro reader ready
  obtain ⟨after, places, ends, walk⟩ := walks reader ready
  refine ⟨after, places, ?_, walk⟩
  rw [← ends]
  change Outcome.final (EStateM.bind parser (fun _ => pure ()) reader.state) = _
  unfold EStateM.bind
  cases parser reader.state <;> rfl

end MacroScript.Grammar
