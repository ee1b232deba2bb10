import MacroScript.Proofs.Reading.Statement

/-!
# Parsers in tandem

Two parsers run in tandem when they take the same decisions: they read tokens that
differ in their numbers only, they come to the same tree up to a renumbering or to the
same fault, and their states stay related.

What it means for states to be related is left open.  The relation may depend on the
marks of what was read so far, so it can say of a single parser what it knows at each
point of the source.  `Lockstep` and `Simulation` list what has to be shown of a relation:
how it goes on with the cursor and with scopes, and then with literals, with names and with
macro nodes.

There is one lemma for each piece of the grammar and for each way to put pieces together,
so all rules run in tandem with themselves.
-/

namespace MacroScript.Grammar

variable {α β : Type} {log : List Mark} {one two : Reader}

/-! ## Related runs -/

/-- How the states of two parsers are related, as long as they go on and once they have
failed. -/
structure Pairing where
  /-- The states of two parsers that have read what the marks say. -/
  Related : List Mark → Reader → Reader → Prop
  /-- What two parsers that have failed leave behind. -/
  Failed : Context → Context → Prop

namespace Pairing

/-- The outcomes of two parsers in tandem.  The marks of the value are added to those that
were read before. -/
inductive Outcome (pairing : Pairing) (map : α → α) (view : α → List Mark) (log : List Mark) :
    EStateM.Result Fault State α → EStateM.Result Fault State α → Prop
  | ok {value : α} {one two : Reader} (related : pairing.Related (log ++ view value) one two) :
      Outcome pairing map view log (.ok value one.state) (.ok (map value) two.state)
  | error {fault : Fault} {one two : Reader}
      (failed : pairing.Failed one.context two.context) :
      Outcome pairing map view log (.error fault one.state) (.error fault two.state)

/-- Two parsers that stay related.  The marks `prior` were read already and will show in the
value; they are the last ones of what was read. -/
def Tandem (pairing : Pairing) (prior : List Mark) (first second : Parser α) (map : α → α)
    (view : α → List Mark) : Prop :=
  ∀ (log : List Mark) (one two : Reader), pairing.Related (log ++ prior) one two →
    pairing.Outcome map view log (first one.state) (second two.state)

end Pairing

/-- A relation that goes on with the cursor and with scopes. -/
structure Lockstep (r : Renumbering) extends Pairing where
  cursor {log : List Mark} {one two : Reader} (related : Related log one two) :
    two.cursor = r.cursor one.cursor
  ready {log : List Mark} {one two : Reader} (related : Related log one two) :
    one.cursor.Ready
  failed {log : List Mark} {one two : Reader} (related : Related log one two) :
    Failed one.context two.context
  failedExit {one two : Context} (failed : Failed one two) :
    Failed one.exitScope two.exitScope
  move {log : List Mark} {one two : Reader} {next : Cursor} (related : Related log one two)
    (forward : one.cursor.Forward next) :
    Related log ⟨next, one.context⟩ ⟨r.cursor next, two.context⟩
  enter {log : List Mark} {one two : Reader} (related : Related log one two) :
    Related (log ++ [.enter]) one.enter two.enter
  exit {log : List Mark} {one two : Reader} (related : Related log one two) :
    Related (log ++ [.exit]) one.exit two.exit

/-- A relation that two parsers keep when they run in tandem. -/
structure Simulation (r : Renumbering) extends Lockstep r where
  /-- A literal is read from a token that is no punctuator and not the end of input. -/
  literal {log : List Mark} {one two : Reader} (related : Related log one two)
    (written : one.cursor.peek.kind ≠ .punct) (inside : one.cursor.peek.kind ≠ .eof)
    (kind : LiteralKind) :
    Related (log ++ [.literal ⟨kind, one.cursor.peek.text, one.cursor.peek.span⟩])
      ⟨one.cursor.advance, one.context⟩ ⟨r.cursor one.cursor.advance, two.context⟩
  bindingName : toPairing.Tandem [] bindingName bindingName r.identifier fun name => [.binding name]
  /-- A name that is read as a reference without a look at macros is no callee. -/
  referenceName {log : List Mark} {one two : Reader} (related : Related log one two)
    (uncalled : (one.cursor.peekAt 1).isPunct "(" = false) :
    toPairing.Outcome r.identifier (fun name => [.reference name]) log (referenceName one.state)
      (referenceName two.state)
  nameExpression : toPairing.Tandem [] nameExpression nameExpression r.expr Mark.ofExpr
  macroDeclaration {log : List Mark} {one two : Reader} (related : Related log one two)
    (isMacro : one.cursor.peek.isWord "macro" = true)
    (named : (one.cursor.peekAt 1).isName = true) :
    toPairing.Outcome r.stmt Mark.ofStmt log (macroDeclaration one.state)
      (macroDeclaration two.state)

/-- A parser that runs in tandem with itself, and whose value shows all it has read. -/
abbrev Lockstep.Reads {r : Renumbering} (sim : Lockstep r) (parser : Parser α) (map : α → α)
    (view : α → List Mark) : Prop :=
  sim.Tandem [] parser parser map view

variable {r : Renumbering} {sim : Lockstep r} {prior : List Mark} {first second : Parser α}
  {map : α → α} {view : α → List Mark} {resultMap : β → β} {result : β → List Mark}

/-! ## Sequences -/

/-- Two parsers that run in tandem go on in tandem. -/
theorem Pairing.Outcome.bind {nextFirst nextSecond : α → Parser β} {one two : State}
    (run : sim.Outcome map view log (first one) (second two)) (later : ∀ value,
      sim.Tandem (view value) (nextFirst value) (nextSecond (map value)) resultMap result) :
    sim.Outcome resultMap result log ((first >>= nextFirst) one) ((second >>= nextSecond) two) := by
  simp only [Bind.bind, EStateM.bind]
  generalize first one = firstRun at run
  generalize second two = secondRun at run
  cases run with
  | error failed => exact .error failed
  | ok related => exact later _ log _ _ related

namespace Pairing.Tandem

variable {nextFirst nextSecond : α → Parser β}

protected theorem bind (tandem : sim.Tandem prior first second map view) (later : ∀ value,
      sim.Tandem (view value) (nextFirst value) (nextSecond (map value)) resultMap result) :
    sim.Tandem prior (first >>= nextFirst) (second >>= nextSecond) resultMap result :=
  fun log one two related => (tandem log one two related).bind later

/-- What was read before may be put in front. -/
theorem frame (tandem : sim.Tandem [] first second map view) :
    sim.Tandem prior first second map fun value => prior ++ view value := by
  intro log one two related
  have run := tandem (log ++ prior) one two (by rwa [List.append_nil])
  generalize first one.state = firstRun at run ⊢
  generalize second two.state = secondRun at run ⊢
  cases run with
  | error failed => exact .error failed
  | ok related =>
    rw [List.append_assoc] at related
    exact .ok related

/-- Both find the same out about the position and go on. -/
theorem past (tandem : sim.Tandem prior first second id fun _ => prior)
    (later : ∀ value, sim.Tandem prior (nextFirst value) (nextSecond value) resultMap result) :
    sim.Tandem prior (first >>= nextFirst) (second >>= nextSecond) resultMap result :=
  tandem.bind later

protected theorem pure {value other : α} (same : other = map value) (seen : view value = prior) :
    sim.Tandem prior (pure value) (pure other) map view := by
  intro log one two related
  subst same
  rw [← seen] at related
  exact .ok related

/-- Marks may be seen in another way in the values that the parser comes to. -/
theorem reviewed {otherView : α → List Mark} (tandem : sim.Tandem prior first second map view)
    (seen : Results (fun value => otherView value = view value) first) :
    sim.Tandem prior first second map otherView := by
  intro log one two related
  have run := tandem log one two related
  generalize outcome : first one.state = firstRun at run ⊢
  generalize second two.state = secondRun at run ⊢
  cases run with
  | error failed => exact .error failed
  | ok related =>
    rw [← seen _ _ _ outcome] at related
    exact .ok related

theorem ite {condition other : Bool} {elseFirst elseSecond : Parser α}
    (same : other = condition) (yes : sim.Tandem prior first second map view)
    (no : sim.Tandem prior elseFirst elseSecond map view) :
    sim.Tandem prior (if condition then first else elseFirst)
      (if other then second else elseSecond) map view := by
  subst same
  cases other
  · exact no
  · exact yes

end Pairing.Tandem

/-! ## Computations on the cursor -/

theorem tandem_of_tracks (tracks : r.Tracks first second map) :
    sim.Tandem prior first second map fun _ => prior := by
  obtain ⟨act, rfl, moves, same⟩ := tracks
  rintro log ⟨cursor, context⟩ two related
  have moved := moves cursor (sim.ready related)
  have position : two.state = ⟨r.cursor cursor, some two.context⟩ := by
    rw [← sim.cursor related]
    rfl
  rw [position, same]
  simp only [onCursor, Reader.state]
  cases run : act cursor with
  | ok value next =>
    rw [run] at moved
    change sim.Outcome map _ log (.ok value (Reader.mk next context).state)
      (.ok (map value) (Reader.mk (r.cursor next) two.context).state)
    exact .ok (sim.move related moved.toForward)
  | error fault next =>
    rw [run] at moved
    change sim.Outcome map _ log (.error fault (Reader.mk next context).state)
      (.error fault (Reader.mk (r.cursor next) two.context).state)
    exact .error (sim.failed (sim.move related moved.1.toForward))

/-! ## Local changes of the state -/

namespace Pairing.Tandem

theorem inScope (tandem : sim.Tandem [] first second map view) :
    sim.Tandem [] (inScope first) (inScope second) map fun value => Mark.enclosed (view value) := by
  intro log one two related
  rw [List.append_nil] at related
  have run := tandem (log ++ [.enter]) one.enter two.enter
    (by rw [List.append_nil]; exact sim.enter related)
  change sim.Outcome map _ log (Grammar.followedBy first _ one.enter.state)
    (Grammar.followedBy second _ two.enter.state)
  unfold Grammar.followedBy
  generalize first one.enter.state = firstRun at run ⊢
  generalize second two.enter.state = secondRun at run ⊢
  cases run with
  | @error fault after other failed =>
    change sim.Outcome map _ log (.error fault after.exit.state) (.error fault other.exit.state)
    exact .error (sim.failedExit failed)
  | @ok value after other related =>
    have closed := sim.exit related
    rw [List.append_assoc, List.append_assoc] at closed
    change sim.Outcome map _ log (.ok value after.exit.state) (.ok (map value) other.exit.state)
    exact .ok closed

/-- A setting of the cursor moves nothing. -/
theorem set (related : sim.Related log one two) (allowed : Bool) :
    sim.Related log { one with cursor := { one.cursor with allowIn := allowed } }
      { two with cursor := { two.cursor with allowIn := allowed } } := by
  have still : one.cursor.Forward { one.cursor with allowIn := allowed } :=
    ⟨rfl, rfl, Nat.le_refl _, (sim.ready related).inside⟩
  have moved := sim.move related still
  have same : r.cursor { one.cursor with allowIn := allowed } =
      { two.cursor with allowIn := allowed } := by
    rw [sim.cursor related]
    rfl
  rwa [same] at moved

theorem followedBy (tandem : sim.Tandem prior first second map view) (allowed : Bool) :
    sim.Tandem prior
      (followedBy first fun state =>
        { state with cursor := { state.cursor with allowIn := allowed } })
      (followedBy second fun state =>
        { state with cursor := { state.cursor with allowIn := allowed } }) map view := by
  intro log one two related
  have run := tandem log one two related
  unfold Grammar.followedBy
  generalize first one.state = firstRun at run ⊢
  generalize second two.state = secondRun at run ⊢
  cases run with
  | @error fault after other failed =>
    let set (reader : Reader) : Reader :=
      { reader with cursor := { reader.cursor with allowIn := allowed } }
    change sim.Outcome map _ log (.error fault (set after).state) (.error fault (set other).state)
    exact .error failed
  | ok related => exact .ok (set related allowed)

theorem withIn (tandem : sim.Tandem prior first second map view) (within lasts : Bool) :
    sim.Tandem prior (withIn within lasts first) (withIn within lasts second) map view := by
  have setting : sim.Tandem prior (setAllowIn within) (setAllowIn within) id fun _ => prior :=
    fun _ _ _ related => (Pairing.Outcome.ok (set related within) :
      sim.Outcome id (fun _ => prior) _ (.ok () _) (.ok () _))
  exact (tandem_of_tracks tracks_inAllowed).past fun former =>
    setting.past fun _ => tandem.followedBy (lasts || former)

end Pairing.Tandem

/-! ## Rules -/

theorem outcome_literalOf {sim : Simulation r} (related : sim.Related log one two)
    (written : one.cursor.peek.kind ≠ .punct) (inside : one.cursor.peek.kind ≠ .eof)
    (kind : LiteralKind) :
    sim.Outcome r.expr Mark.ofExpr log (literalOf kind one.state) (literalOf kind two.state) := by
  have position := sim.cursor related
  let literal (reader : Reader) : Expr :=
    .literal ⟨kind, reader.cursor.peek.text, reader.cursor.peek.span⟩
  have same : literal two = r.expr (literal one) := by
    simp only [literal, position, r.cursor_peek]
    rfl
  have run (reader : Reader) : literalOf kind reader.state =
      .ok (literal reader) (Reader.mk reader.cursor.advance reader.context).state := rfl
  rw [run, run, same, position, r.cursor_advance]
  exact .ok (sim.literal related written inside kind)

/-- A macro declaration, or what else a statement may be. -/
theorem tandem_declaration {sim : Simulation r} {otherwise : Parser Stmt}
    (plain : sim.Reads otherwise r.stmt Mark.ofStmt) :
    sim.Reads (do if ← atMacroDeclaration then macroDeclaration else otherwise) r.stmt
      Mark.ofStmt := by
  intro log one two related'
  have related := related'
  rw [List.append_nil] at related
  have position : two.state.cursor = r.cursor one.state.cursor := sim.cursor related
  have word : (r.token one.state.cursor.peek).isWord "macro" =
      one.state.cursor.peek.isWord "macro" := rfl
  have named : (r.token (one.state.cursor.peekAt 1)).isName =
      (one.state.cursor.peekAt 1).isName := rfl
  have known (reader : Reader) : reader.state.context.isSome = true := rfl
  simp only [bind, EStateM.bind, atMacroDeclaration, position, r.cursor_peek, r.cursor_peekAt,
    word, named, known, Bool.true_and]
  split
  · rename_i declares
    rw [Bool.and_eq_true] at declares
    exact sim.macroDeclaration related declares.1 declares.2
  · exact plain log one two related'

/-- Parsers that are put together in the same way run in tandem. -/
theorem outcome_of_composed (sim : Simulation r) {condition : Cursor → Prop}
    (composed : r.ComposedWhere condition prior first second map view)
    (related : sim.Related (log ++ prior) one two) (holds : condition one.cursor) :
    sim.Outcome map view log (first one.state) (second two.state) := by
  induction composed generalizing log one two with
  | tracks tracks => exact tandem_of_tracks tracks log one two related
  | literal kind written inside =>
    rw [List.append_nil] at related
    exact outcome_literalOf related (written _ holds) (inside _ holds) kind
  | bindingName => exact sim.bindingName log one two related
  | referenceName uncalled =>
    rw [List.append_nil] at related
    exact sim.referenceName related (uncalled _ holds)
  | nameExpression => exact sim.nameExpression log one two related
  | declaration plain ih =>
    exact tandem_declaration (fun _ _ _ related => ih related trivial) log one two related
  | bind first later ihFirst ihLater =>
    exact (ihFirst related holds).bind fun value _ _ _ related => ihLater value related trivial
  | choose choice chosen each ih =>
    have position : two.state.cursor = r.cursor one.cursor := sim.cursor related
    rw [chosen, chosen, position]
    exact ih one.cursor related rfl
  | anywhere inner ih => exact ih related trivial
  | inScope inner ih =>
    have tandem : sim.Tandem [] _ _ _ _ := fun _ _ _ related => ih related trivial
    exact tandem.inScope log one two related
  | withIn within lasts restored inner ih =>
    have tandem : sim.Tandem _ _ _ _ _ := fun _ _ _ related => ih related trivial
    exact tandem.withIn within lasts log one two related
  | beyond near begins => cases near
  | frame inner ih =>
    have tandem : sim.Tandem [] _ _ _ _ := fun _ _ _ related => ih related trivial
    exact tandem.frame log one two related
  | reviewed inner seen ih =>
    have tandem : sim.Tandem _ _ _ _ _ := fun _ _ _ related => ih related trivial
    exact tandem.reviewed seen log one two related

theorem tandem_of_composed (sim : Simulation r)
    (composed : r.Composed prior first second map view) :
    sim.Tandem prior first second map view :=
  fun _ _ _ related => outcome_of_composed sim composed related trivial

/-- Two parsers in related states come to the same program up to its numbers. -/
theorem tandem_program (sim : Simulation r) : sim.Reads program r.program Mark.ofProgram :=
  tandem_of_composed sim composed_program

end MacroScript.Grammar
