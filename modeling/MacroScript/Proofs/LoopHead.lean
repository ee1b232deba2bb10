import MacroScript.Proofs.Reading.Statement

/-!
# The word `in` in the head of a loop

In the first part of the head of a loop the word `in` is no operator.  Every rule restores this
setting of the cursor, whether it comes to a value or to a fault, with one exception: behind the
first part of its own head, a loop makes `in` an operator, whatever it was before.  So the setting
is kept where `in` is an operator, and where no loop is read.  In a head that holds a function with
a loop inside, it is lost.
-/

namespace MacroScript.Grammar

open MacroScript.Outcome

variable {α : Type} {reach : Reach} {parser second : Parser α} {map : α → α}

/-- A loop begins at a token from the first cursor up to the second one. -/
def LoopBetween (before after : Cursor) : Prop :=
  ∃ index, before.index ≤ index ∧ index < after.index ∧
    (before.tokenAt index).isReserved "for" = true

/-- A later state.  There `in` is an operator as before, or has become one in a loop.  Where loops
are out of reach, such a loop was read on the way. -/
def Restores [Reach] (before after : State) : Prop :=
  before.cursor.Ready → before.cursor.Forward after.cursor ∧
    (after.cursor.allowIn = before.cursor.allowIn ∨ after.cursor.allowIn = true ∧
      (Reach.loops = false → LoopBetween before.cursor after.cursor))

instance : IsPreorder State Restores where
  refl _ ready := ⟨.refl ready, .inl rfl⟩
  trans first second third one two ready := by
    obtain ⟨forward, flag⟩ := one ready
    obtain ⟨further, flagToo⟩ := two (forward.ready ready)
    refine ⟨forward.trans further, ?_⟩
    rcases flagToo with same | ⟨set, loop⟩
    · rw [same]
      refine flag.imp id (And.imp id fun loop near => ?_)
      obtain ⟨index, later, earlier, begins⟩ := loop near
      exact ⟨index, later, Nat.lt_of_lt_of_le earlier further.index, begins⟩
    · refine .inr ⟨set, fun near => ?_⟩
      obtain ⟨index, later, earlier, begins⟩ := loop near
      exact ⟨index, Nat.le_trans forward.index later, earlier, forward.tokenAt index ▸ begins⟩

/-! ## Pieces of the grammar -/

theorem restores_of_tracks {r : Renumbering} (tracks : r.Tracks parser second map) :
    Leads Restores parser := by
  obtain ⟨act, rfl, moves, -⟩ := tracks
  intro state ready
  have moved := moves state.cursor ready
  unfold onCursor
  cases run : act state.cursor with
  | ok value next =>
    rw [run] at moved
    exact ⟨moved.toForward, .inl moved.allowIn⟩
  | error fault next =>
    rw [run] at moved
    exact ⟨moved.1.toForward, .inl moved.1.allowIn⟩

/-- A computation on the cursor and what follows it. -/
theorem restores_past {β : Type} {next : α → Parser β}
    (tracks : ({} : Renumbering).Tracks parser second map)
    (later : ∀ value, Leads Restores (next value)) : Leads Restores (parser >>= next) :=
  (restores_of_tracks tracks).bind later

/-- Parsers that leave the cursor alone. -/
theorem restores_of_still (still : ∀ state, (final (parser state)).cursor = state.cursor) :
    Leads Restores parser := by
  intro state ready
  rw [still]
  exact ⟨.refl ready, .inl rfl⟩

theorem restores_withContext (otherwise : α) (ask : Context → Cursor → Except Fault α) :
    Leads Restores (withContext otherwise ask) := by
  apply restores_of_still
  intro state
  unfold withContext
  split
  · rfl
  · split <;> rfl

theorem restores_resolveName (identifier : Identifier) (index : Nat) :
    Leads Restores (resolveName identifier index) :=
  (restores_withContext _ _).bind fun _ => .pure _

/-- A name is read, and what is done with it leaves the cursor alone. -/
theorem restores_named {next : Identifier → Nat → Parser Identifier}
    (later : ∀ identifier index, Leads Restores (next identifier index)) :
    Leads Restores (do
      let place ← index
      let identifier ← expectName
      next identifier place) := by
  have name : Leads Restores expectName :=
    restores_past tracks_peek fun _ => .either (restores_past tracks_advance fun _ => .pure _)
      (restores_of_still fun _ => rfl)
  exact restores_past tracks_index fun place => name.bind fun identifier => later identifier place

theorem restores_referenceName : Leads Restores referenceName :=
  restores_named restores_resolveName

theorem restores_bindingName : Leads Restores bindingName :=
  restores_named fun identifier index => (restores_withContext _ _).bind fun _ =>
    (restores_of_still fun _ => rfl).bind fun _ => restores_resolveName identifier index

theorem restores_nameExpression : Leads Restores nameExpression := by
  have called (macroId : MacroId) : Leads Restores (macroCall macroId) :=
    restores_past tracks_advance fun _ => restores_past tracks_advance fun _ =>
      restores_past tracks_index fun _ => restores_past (tracks_takeBalanced _) fun _ =>
        (restores_withContext _ _).bind fun _ => restores_past (tracks_finishSpan _) fun _ =>
          (restores_withContext _ _).bind fun _ => .pure _
  refine restores_past tracks_index fun _ => restores_past tracks_peek fun _ =>
    restores_past (tracks_peekAt 1) fun _ => .either ((restores_withContext _ _).bind ?_)
      ((Leads.pure _).bind ?_)
  all_goals
    intro callee
    cases callee with
    | some macroId => exact called macroId
    | none => exact restores_referenceName.bind fun _ => .pure _

theorem restores_macroDeclaration : Leads Restores macroDeclaration :=
  restores_past tracks_advance fun _ => restores_past tracks_advance fun _ =>
    (restores_of_still fun _ => rfl).bind fun _ => restores_past (tracks_expectPunct _) fun _ =>
      restores_past tracks_remaining fun _ => restores_past (tracks_rulesOf _ _) fun _ =>
        restores_past tracks_advance fun _ => restores_past (tracks_finishSpan _) fun _ =>
          .either (restores_of_still fun _ => rfl) ((restores_withContext _ _).bind fun _ =>
            (restores_of_still fun _ => rfl).bind fun _ => .pure _)

theorem final_followedBy (parser : Parser α) (change : State → State) (state : State) :
    final (followedBy parser change state) = change (final (parser state)) := by
  unfold followedBy
  cases parser state <;> rfl

/-! ## Rules -/

/-- Whatever is put together from the pieces of the grammar restores the setting, but for
loops. -/
theorem restores_of_composed {r : Renumbering} {condition : Cursor → Prop} {prior : List Mark}
    {first : Parser α} {view : α → List Mark}
    (composed : r.ComposedWhere condition prior first second map view) {state : State}
    (holds : condition state.cursor) : Restores state (final (first state)) := by
  induction composed generalizing state with
  | tracks tracks => exact restores_of_tracks tracks state
  | literal kind written inside => exact restores_of_tracks (r.tracks_literalOf kind) state
  | bindingName => exact restores_bindingName state
  | referenceName uncalled => exact restores_referenceName state
  | nameExpression => exact restores_nameExpression state
  | declaration plain ih =>
    simp only [Bind.bind, EStateM.bind, atMacroDeclaration]
    split
    · exact restores_macroDeclaration state
    · exact ih trivial
  | bind one later ihOne ihLater =>
    exact Leads.final_bind (ihOne holds) fun value _ => ihLater value trivial
  | choose choice chosen each ih =>
    rw [chosen]
    exact ih state.cursor rfl
  | anywhere inner ih => exact ih trivial
  | inScope inner ih =>
    rw [Grammar.inScope, final_followedBy]
    exact @ih { state with context := state.context.map Context.enterScope } trivial
  | withIn within lasts restored inner ih =>
    intro ready
    obtain ⟨forward, -⟩ := @ih { state with cursor := { state.cursor with allowIn := within } }
      trivial ⟨ready.finish, ready.inside⟩
    simp only [Grammar.withIn, Bind.bind, EStateM.bind, inAllowed, setAllowIn, final_followedBy]
    refine ⟨⟨forward.tokens, forward.finish, forward.index, forward.inside⟩, ?_⟩
    cases lasts with
    | false => exact .inl rfl
    | true => exact .inr ⟨rfl, fun near => (Bool.false_ne_true (restored near).symm).elim⟩
  | beyond near passes =>
    intro ready
    have passed := passes state holds ready
    exact ⟨passed.forward, passed.allowIn.imp id fun set =>
      ⟨set, fun _ => ⟨_, Nat.le_refl _, passed.moves, passed.begins⟩⟩⟩
  | frame inner ih
  | reviewed inner seen ih => exact ih trivial

/-! ## Loops -/

/-- Every loop is read to a position behind its first word. -/
theorem passLoops_level (level : Nat) : PassLoops (.level level) := by
  intro state begins ready
  have first : state.cursor.Forward state.cursor.advance := ready.forward_advance
  have rest (start : Span) :
      Leads Restores (do let _ ← expectPunct "("; inScope (forRest (.level level) start)) :=
    restores_past (tracks_expectPunct "(") fun _ _ =>
      restores_of_composed (r := {}) (composed_forRest (composed_level level) rfl start).inScope
        trivial
  obtain ⟨further, flag⟩ := rest state.cursor.peek.span
    { state with cursor := state.cursor.advance } (first.ready ready)
  have moves : state.cursor.index < state.cursor.advance.index := by
    rw [Cursor.advance_index_of_lt (ready.lt_of_isReserved begins)]
    exact Nat.lt_succ_self _
  have allowIn : state.cursor.advance.allowIn = state.cursor.allowIn := by
    unfold Cursor.advance
    split <;> rfl
  exact ⟨begins, first.trans further, Nat.lt_of_lt_of_le moves further.index,
    flag.imp (·.trans allowIn) And.left⟩

/-- The parser leaves it as it was whether `in` is an operator, or `in` becomes one and the parser
has read the first word of a loop. -/
def KeepsIn (parser : Parser α) : Prop :=
  ∀ state, state.cursor.Ready →
    (final (parser state)).cursor.allowIn = state.cursor.allowIn ∨
      (final (parser state)).cursor.allowIn = true ∧
        LoopBetween state.cursor (final (parser state)).cursor

theorem keepsIn_of_composed {prior : List Mark} {view : α → List Mark}
    (near : reach.loops = false)
    (composed : ({} : Renumbering).Composed prior parser parser map view) : KeepsIn parser := by
  intro state ready
  exact (restores_of_composed composed trivial ready).2.imp id (And.imp id fun loop => loop near)

/-- Statements, expressions and assignments leave it as it was whether `in` is an operator, with a
value or with a fault, unless it was none and they read a loop. -/
theorem keepsIn_level (level : Nat) :
    KeepsIn (Rules.level level).statement ∧ KeepsIn (Rules.level level).expression ∧
      KeepsIn (Rules.level level).assignment := by
  obtain ⟨reach, near⟩ : ∃ reach : Reach, reach.loops = false := ⟨⟨false⟩, rfl⟩
  have rules : (Rules.level level).Composed {} := composed_level_of (fun _ => passLoops_level) level
  exact ⟨keepsIn_of_composed near rules.statement, keepsIn_of_composed near rules.expression,
    keepsIn_of_composed near rules.assignment⟩

/-- The head of a loop from its first part on, with another loop behind it. -/
def loopAhead : State where
  cursor :=
    { Cursor.ofTokens ((tokenize "i in b) c; for (;;) ;").toOption.getD []) with allowIn := false }
  context := none

/-- The first part of the head in `loopAhead` is `i`.  Behind it `in` still is no operator, whatever
the rest holds. -/
theorem loopAhead_keeps_in :
    loopAhead.cursor.allowIn = false ∧
      (final ((Rules.level 14).expression loopAhead)).cursor.index = 1 ∧
      (final ((Rules.level 14).expression loopAhead)).cursor.allowIn = false := by
  have one : (final ((Rules.level 14).expression loopAhead)).cursor.index = 1 := by decide +kernel
  refine ⟨rfl, one, ?_⟩
  rcases (keepsIn_level 14).2.1 loopAhead ⟨by decide +kernel, Nat.zero_le _⟩ with
    same | ⟨-, index, -, earlier, begins⟩
  · exact same
  · obtain rfl : index = 0 := by
      rw [one] at earlier
      exact Nat.lt_one_iff.mp earlier
    exact absurd begins (by decide +kernel)

/-- A function with a loop inside. -/
def loopingFunction : List Token :=
  (tokenize "function () \x7b for (a;;) b; \x7d").toOption.getD []

/-- Behind `loopingFunction` the word `in` is an operator, also in the head of a loop, where it is
none before. -/
theorem loopingFunction_allows_in :
    ∃ state : State, state.cursor.Ready ∧ state.cursor.allowIn = false ∧
      (final ((Rules.level state.cursor.remaining).expression state)).cursor.allowIn = true := by
  refine ⟨⟨{ Cursor.ofTokens loopingFunction with allowIn := false }, none⟩, ?_, rfl, ?_⟩
  · exact ⟨by decide +kernel, Nat.zero_le _⟩
  · decide +kernel

end MacroScript.Grammar
