import MacroScript.Proofs.Hygiene.Progress
import MacroScript.Proofs.Tandem.Parser
import MacroScript.Proofs.Tandem.Session

/-!
# Reading in sessions that are alike

Parsers that start in alike sessions stay in tandem: they look up the same colors and the
same macros, up to the numbers of these, and leave alike sessions behind whether they
succeed or not.
-/

namespace MacroScript.Grammar

variable {r : Renumbering} {v : Vocabulary} {context : Context} {cursor : Cursor} {index : Nat}
  {captured tokens : List Token}

/-! ## Contexts -/

/-- The second context is the first under other numbers. -/
structure Context.Alike (r : Renumbering) (v : Vocabulary) (one two : Context) : Prop where
  session : one.session.Alike r v two.session
  scopes : two.scopes = one.scopes.map r.scope
  nonempty : one.scopes ≠ []
  hygiene : two.hygiene = one.hygiene.map r.hygiene

namespace Context.Alike

variable {one two : Context} {name : String}
variable (alike : one.Alike r v two)
include alike

theorem enterScope :
    one.enterScope.Alike r v two.enterScope where
  session := alike.session.allocScope
  scopes := by
    simp only [Context.enterScope, List.map_cons, alike.session.size, alike.scopes]
  nonempty := List.cons_ne_nil _ _
  hygiene := alike.hygiene

theorem exitScope : one.exitScope.Alike r v two.exitScope := by
  rcases one with ⟨session, scopes, hygiene⟩
  rcases two with ⟨session', scopes', hygiene'⟩
  obtain rfl : scopes' = scopes.map r.scope := alike.scopes
  match scopes with
  | [] => exact alike
  | [_] => exact alike
  | _ :: outer :: rest =>
    exact ⟨alike.session, rfl, List.cons_ne_nil _ _, alike.hygiene⟩

theorem mark (stack : ScopeStack) (name : String) (color : Option Color) :
    (one.mark stack name color).Alike r v
      (two.mark (stack.map r.scope) name (color.map r.color)) := by
  cases stack with
  | nil => exact alike
  | cons innermost outer =>
    exact ⟨alike.session.markColor innermost name color, alike.scopes, alike.nonempty,
      alike.hygiene⟩

theorem declare {rules : List Rule} {span : Span}
    (covered : ∀ rule ∈ rules, v.Covers rule.template) :
    (one.declare name rules span).Alike r v (two.declare name (rules.map r.rule) span) := by
  have innermost : two.scopes.headD 0 = r.scope (one.scopes.headD 0) := by
    rw [alike.scopes]
    cases stack : one.scopes with
    | nil => exact absurd stack alike.nonempty
    | cons innermost outer => rfl
  have leftOut : MacroDef.Within v { name, rules, scopes := one.scopes, span } := covered
  have declared := alike.session.declareMacro (one.scopes.headD 0) leftOut
  rw [← innermost] at declared
  constructor
  · rw [Context.declare, Context.declare, alike.scopes]
    rw [alike.scopes] at declared
    exact declared
  · exact alike.scopes
  · exact alike.nonempty
  · exact alike.hygiene

theorem bindBody (hygiene : Hygiene) (name : String) :
    (one.bindBody hygiene name).Alike r v (two.bindBody (r.hygiene hygiene) name) := by
  rcases hygiene with ⟨origins, declarationScopes, invocationScopes, color⟩
  cases color with
  | some color =>
    have claimed : Context.Alike r v
        { one with hygiene := some ⟨origins, declarationScopes, invocationScopes, some color⟩ }
        { two with
          hygiene := some
            (r.hygiene ⟨origins, declarationScopes, invocationScopes, some color⟩) } :=
      ⟨alike.session, alike.scopes, alike.nonempty, rfl⟩
    exact claimed.mark declarationScopes name (some color)
  | none =>
    have same : two.session.nextColor.lastColor = r.color one.session.nextColor.lastColor :=
      alike.session.nextColor.lastColor
    have claimed : Context.Alike r v
        { one with
          session := one.session.nextColor
          hygiene := some
            ⟨origins, declarationScopes, invocationScopes, some one.session.nextColor.lastColor⟩ }
        { two with
          session := two.session.nextColor
          hygiene := some
            ⟨origins, declarationScopes.map r.scope, invocationScopes.map r.scope,
              some two.session.nextColor.lastColor⟩ } := by
      rw [same]
      exact ⟨alike.session.nextColor, alike.scopes, alike.nonempty, rfl⟩
    have marked := claimed.mark declarationScopes name (some one.session.nextColor.lastColor)
    rw [Option.map_some, ← same] at marked
    exact marked

theorem origin {hygiene : Hygiene} (hygienic : one.hygiene = some hygiene) :
    two.hygiene = some (r.hygiene hygiene) := by
  rw [alike.hygiene, hygienic]
  rfl

variable (cursor : Cursor) (index : Nat)

theorem tokenColor (seen : v.hidden ≠ some name) :
    two.tokenColor (r.cursor cursor) index name =
      (one.tokenColor cursor index name).map (Option.map r.color) := by
  cases hygienic : one.hygiene with
  | none =>
    rw [tokenColor_of_plain hygienic, tokenColor_of_plain (by rw [alike.hygiene, hygienic]; rfl)]
    rfl
  | some hygiene =>
    have other := alike.origin hygienic
    cases traced : hygiene.origins[index]? with
    | none =>
      simp only [Context.tokenColor, hygienic, other, Hygiene.origin, traced, Renumbering.hygiene]
      rfl
    | some origin =>
      cases origin with
      | body =>
        rw [tokenColor_of_body hygienic traced, tokenColor_of_body other traced]
        simp only [Renumbering.hygiene, alike.session.findColor? _ seen]
        rfl
      | invocation =>
        rw [tokenColor_of_invocation hygienic traced, tokenColor_of_invocation other traced,
          r.cursor_tokenAt]
        rfl

/-- Both fail to bind a name, or both bind it. -/
theorem bindName (name : String) :
    (∃ fault, one.bindName cursor index name = .error fault ∧
      two.bindName (r.cursor cursor) index name = .error fault) ∨
    ∃ bound boundToo, one.bindName cursor index name = .ok bound ∧
      two.bindName (r.cursor cursor) index name = .ok boundToo ∧
        bound.Alike r v boundToo := by
  cases hygienic : one.hygiene with
  | none =>
    have plain : two.hygiene = none := by
      rw [alike.hygiene, hygienic]
      rfl
    refine .inr ⟨_, _, bindName_of_plain hygienic, bindName_of_plain plain, ?_⟩
    rw [alike.scopes]
    exact alike.mark one.scopes name none
  | some hygiene =>
    have other := alike.origin hygienic
    cases traced : hygiene.origins[index]? with
    | none =>
      left
      simp only [Context.bindName, hygienic, other, Hygiene.origin, traced,
        Renumbering.hygiene]
      exact ⟨_, rfl, rfl⟩
    | some origin =>
      right
      cases origin with
      | body =>
        refine ⟨_, _, bindName_of_body hygienic traced, bindName_of_body other traced, ?_⟩
        exact alike.bindBody hygiene name
      | invocation =>
        refine ⟨_, _, bindName_of_invocation hygienic traced,
          bindName_of_invocation other traced, ?_⟩
        rw [r.cursor_tokenAt]
        exact alike.mark _ _ _

theorem findMacro? (seen : v.hidden ≠ some name) :
    two.findMacro? index name = (one.findMacro? index name).map (Option.map r.macroId) := by
  have own : two.session.scopes.findMacro? two.scopes name =
      (one.session.scopes.findMacro? one.scopes name).map r.macroId := by
    rw [alike.scopes]
    exact alike.session.findMacro? one.scopes seen
  cases hygienic : one.hygiene with
  | none =>
    simp only [Context.findMacro?, hygienic, alike.hygiene, Option.map_none, own]
    rfl
  | some hygiene =>
    simp only [Context.findMacro?, hygienic, alike.origin hygienic, own]
    cases traced : hygiene.origins[index]? with
    | none =>
      simp only [Hygiene.origin, traced, Renumbering.hygiene]
      rfl
    | some origin =>
      have scopes : (r.hygiene hygiene).scopes origin =
          (hygiene.scopes origin).map r.scope := by
        cases origin <;> rfl
      have tracedToo : (r.hygiene hygiene).origins[index]? = some origin := traced
      have found := alike.session.findMacro? (hygiene.scopes origin) seen
      simp only [Hygiene.origin, traced, tracedToo, scopes, bind, Except.bind, found]
      cases one.session.scopes.findMacro? (hygiene.scopes origin) name <;> rfl

theorem fixColors (covered : v.Covers tokens) :
    two.fixColors (r.cursor cursor) index (tokens.map r.token) =
      (one.fixColors cursor index tokens).map (List.map r.token) := by
  induction tokens generalizing index with
  | nil => rfl
  | cons token rest ih =>
    have tested : ((r.token token).isName && (r.token token).captureName?.isNone) =
        (token.isName && token.captureName?.isNone) := rfl
    have later := ih (index + 1) (covered.subset fun _ => List.mem_cons_of_mem token)
    simp only [List.map_cons, Context.fixColors, tested, later]
    split
    · rename_i plain
      have isName := (Bool.and_eq_true_iff.mp plain).1
      have seen := v.seen (covered token List.mem_cons_self) isName
      have text : (r.token token).text = token.text := rfl
      rw [text, alike.tokenColor cursor index seen]
      cases one.tokenColor cursor index token.text with
      | error fault => rfl
      | ok color => cases one.fixColors cursor (index + 1) rest <;> rfl
    · cases one.fixColors cursor (index + 1) rest <;> rfl

theorem captureColors (covered : v.Covers tokens) :
    two.captureColors (r.cursor cursor) index (tokens.map r.token) =
      (one.captureColors cursor index tokens).map (List.map r.token) := by
  cases hygienic : one.hygiene with
  | none =>
    simp only [Context.captureColors, hygienic, alike.hygiene, Option.map_none]
    rfl
  | some hygiene =>
    simp only [Context.captureColors, hygienic, alike.origin hygienic]
    exact alike.fixColors cursor index covered

end Context.Alike

/-- Fixing the colors of captured tokens does not leave the vocabulary. -/
theorem Context.covered_fixColors (covered : v.Covers captured)
    (fixed : context.fixColors cursor index captured = .ok tokens) : v.Covers tokens := by
  induction captured generalizing index tokens with
  | nil =>
    cases fixed
    exact covered
  | cons token rest ih =>
    have later {others : List Token}
        (run : context.fixColors cursor (index + 1) rest = .ok others) :
        v.Covers others :=
      ih (covered.subset fun _ => List.mem_cons_of_mem token) run
    have here := covered token List.mem_cons_self
    rw [Context.fixColors] at fixed
    split at fixed
    · obtain ⟨color, _, fixed⟩ := Outcome.except_bind_eq_ok_iff.mp fixed
      obtain ⟨others, run, fixed⟩ := Outcome.except_bind_eq_ok_iff.mp fixed
      cases fixed
      exact List.forall_mem_cons.mpr ⟨v.recolored here color, later run⟩
    · obtain ⟨others, run, fixed⟩ := Outcome.except_bind_eq_ok_iff.mp fixed
      cases fixed
      exact List.forall_mem_cons.mpr ⟨here, later run⟩

theorem Context.covered_captureColors (covered : v.Covers captured)
    (fixed : context.captureColors cursor index captured = .ok tokens) : v.Covers tokens := by
  unfold Context.captureColors at fixed
  split at fixed
  · cases fixed
    exact covered
  · exact covered_fixColors covered fixed

/-! ## Readers -/

/-- The second reader is the first under other numbers, and everything was read from tokens
of the vocabulary. -/
structure Reader.Alike (r : Renumbering) (v : Vocabulary) (log : List Mark)
    (one two : Reader) : Prop where
  cursor : two.cursor = r.cursor one.cursor
  ready : one.cursor.Ready
  covered : v.Covers one.cursor.tokens.toList
  context : one.context.Alike r v two.context
  shown {mark : Mark} (mem : mark ∈ log) : v.Shows mark

namespace Reader.Alike

variable {log : List Mark} {one two : Reader}
variable (alike : one.Alike r v log two)
include alike

theorem admits (inside : index < one.cursor.tokens.size) : v.Admits (one.cursor.tokenAt index) := by
  have found : one.cursor.tokenAt index = one.cursor.tokens[index] := by
    simp [Cursor.tokenAt, inside]
  rw [found]
  exact alike.covered _ (Array.mem_toList_iff.mpr (Array.getElem_mem inside))

/-- A name that is read is not the hidden one. -/
theorem seen (isName : (one.cursor.tokenAt index).isName = true) :
    v.hidden ≠ some (one.cursor.tokenAt index).text :=
  v.seen (alike.admits (alike.ready.lt_of_isName isName)) isName

theorem names (isName : one.cursor.peek.isName = true) (color : Option Color) :
    v.Names (one.cursor.peek.identifier.applyColor? color) :=
  ⟨one.cursor.peek, color, v.shown (alike.admits (alike.ready.lt_of_isName isName)), isName, rfl⟩

theorem move {next : Cursor} (forward : one.cursor.Forward next) :
    Reader.Alike r v log ⟨next, one.context⟩ ⟨r.cursor next, two.context⟩ where
  cursor := rfl
  ready := forward.ready alike.ready
  covered := by
    rw [forward.tokens]
    exact alike.covered
  context := alike.context
  shown := alike.shown

theorem withContext {first second : Context} (context : first.Alike r v second) :
    Reader.Alike r v log ⟨one.cursor, first⟩ ⟨two.cursor, second⟩ :=
  ⟨alike.cursor, alike.ready, alike.covered, context, alike.shown⟩

theorem add {mark : Mark} (shows : v.Shows mark) :
    one.Alike r v (log ++ [mark]) two where
  cursor := alike.cursor
  ready := alike.ready
  covered := alike.covered
  context := alike.context
  shown mem := by
    rcases List.mem_append.mp mem with earlier | added
    · exact alike.shown earlier
    · exact List.mem_singleton.mp added ▸ shows

end Reader.Alike

/-- Readers in alike sessions go on in step. -/
def alikeLockstep (r : Renumbering) (v : Vocabulary) : Lockstep r where
  Related := Reader.Alike r v
  Failed one two := one.session.Alike r v two.session
  cursor related := related.cursor
  ready related := related.ready
  failed related := related.context.session
  failedExit failed := by
    rw [Context.exitScope_session, Context.exitScope_session]
    exact failed
  move related forward := related.move forward
  enter related := (related.withContext related.context.enterScope).add trivial
  exit related := (related.withContext related.context.exitScope).add trivial

/-! ## Names -/

variable {log prior : List Mark} {one two : Reader}

theorem renumber_colored (r : Renumbering) (token : Token) (color : Option Color) :
    (r.token token).identifier.applyColor? (color.map r.color) =
      r.identifier (token.identifier.applyColor? color) :=
  (Identifier.recolor_applyColor? rfl r.color color).symm

theorem alike_bindingName :
    (alikeLockstep r v).Reads bindingName r.identifier fun name => [.binding name] := by
  intro log one two related
  rw [List.append_nil] at related
  have sameName : (r.token one.cursor.peek).isName = one.cursor.peek.isName := rfl
  have sameText : (r.token one.cursor.peek).text = one.cursor.peek.text := rfl
  have position := related.cursor
  have sameIndex : (r.cursor one.cursor).index = one.cursor.index := rfl
  rw [bindingName_state, bindingName_state, position, r.cursor_peek, sameName, sameText, sameIndex,
    r.cursor_advance]
  by_cases isName : one.cursor.peek.isName = true
  · have seen : v.hidden ≠ some one.cursor.peek.text := related.seen isName
    have moved := related.move related.ready.forward_advance
    simp only [isName, if_true]
    rcases related.context.bindName one.cursor one.cursor.index one.cursor.peek.text with
      ⟨fault, failed, failedToo⟩ | ⟨bound, boundToo, binds, bindsToo, alike⟩
    · rw [failed, failedToo]
      exact .error related.context.session
    · rw [binds, bindsToo]
      simp only [alike.tokenColor one.cursor one.cursor.index seen]
      cases bound.tokenColor one.cursor one.cursor.index one.cursor.peek.text with
      | error fault => exact .error alike.session
      | ok color =>
        simp only [Except.map, renumber_colored]
        exact .ok ((moved.withContext alike).add (related.names isName color))
  · simp only [isName]
    rw [← position]
    exact .error related.context.session

theorem alike_referenceName (related : one.Alike r v log two) :
    (alikeLockstep r v).Outcome r.identifier (fun name => [.reference name]) log
      (referenceName one.state) (referenceName two.state) := by
  have sameName : (r.token one.cursor.peek).isName = one.cursor.peek.isName := rfl
  have sameText : (r.token one.cursor.peek).text = one.cursor.peek.text := rfl
  have sameIndex : (r.cursor one.cursor).index = one.cursor.index := rfl
  rw [referenceName_state, referenceName_state, related.cursor, r.cursor_peek, sameName, sameText,
    sameIndex, r.cursor_advance]
  by_cases isName : one.cursor.peek.isName = true
  · have seen : v.hidden ≠ some one.cursor.peek.text := related.seen isName
    simp only [isName, if_true, related.context.tokenColor one.cursor one.cursor.index seen]
    cases one.context.tokenColor one.cursor one.cursor.index one.cursor.peek.text with
    | error fault => exact .error related.context.session
    | ok color =>
      simp only [Except.map, renumber_colored]
      exact .ok ((related.move related.ready.forward_advance).add (related.names isName color))
  · simp only [isName]
    exact .error related.context.session

/-! ## Macro nodes -/

theorem withContext_state {α : Type} (otherwise : α) (ask : Context → Cursor → Except Fault α)
    (reader : Reader) :
    withContext otherwise ask reader.state =
      match ask reader.context reader.cursor with
      | .ok value => .ok value reader.state
      | .error fault => .error fault reader.state :=
  rfl

theorem changeContext_state (change : Context → Context) (reader : Reader) :
    changeContext change reader.state =
      .ok () (Reader.mk reader.cursor (change reader.context)).state :=
  rfl

theorem tandem_changeContext {change changeToo : Context → Context}
    (keeps : ∀ {first second : Context}, first.Alike r v second →
      (change first).Alike r v (changeToo second)) :
    (alikeLockstep r v).Tandem prior (changeContext change) (changeContext changeToo) id
      fun _ => prior := by
  intro log one two related
  rw [changeContext_state, changeContext_state]
  exact .ok (related.withContext (keeps related.context))

theorem alike_macroCall (macroId : MacroId) :
    (alikeLockstep r v).Tandem [] (macroCall macroId) (macroCall (r.macroId macroId)) r.expr
      Mark.ofExpr := by
  apply (tandem_of_tracks tracks_advance).bind
  intro nameToken
  apply (tandem_of_tracks tracks_advance).bind
  intro _
  apply (tandem_of_tracks tracks_index).past
  intro first log one two start
  have run := tandem_of_tracks (tracks_takeBalanced ")") log one two start
  have inside := reads_takeBalanced ")" one.state start.ready
  simp only [bind, EStateM.bind]
  generalize takeBalanced ")" one.state = firstRun at run inside ⊢
  generalize takeBalanced ")" two.state = secondRun at run ⊢
  cases run with
  | error failed => exact .error failed
  | @ok captured after other related =>
    rw [List.append_nil] at related
    have covered : v.Covers captured :=
      start.covered.subset fun token mem => Array.mem_toList_iff.mpr (inside.2 token mem)
    simp only [withContext_state, related.cursor, related.context.captureColors _ first covered]
    cases fixed : after.context.captureColors after.cursor first captured with
    | error fault => exact .error related.context.session
    | ok tokens =>
      have finished : finishSpan (r.token nameToken).span other.state =
          .ok (nameToken.span.through after.cursor.previousSpan) other.state := by
        have moved : other.state.cursor = r.cursor after.cursor := related.cursor
        simp only [finishSpan, moved, r.cursor_previousSpan]
        rfl
      simp only [Except.map, finished, withContext_state, related.context.scopes]
      exact .ok (related.add (Context.covered_captureColors covered fixed))

theorem alike_nameExpression :
    (alikeLockstep r v).Reads nameExpression r.expr Mark.ofExpr := by
  intro log one two related'
  have related := related'
  rw [List.append_nil] at related
  have reference : (alikeLockstep r v).Outcome r.expr Mark.ofExpr log
      ((do return .identifier (← referenceName) : Parser Expr) one.state)
      ((do return .identifier (← referenceName) : Parser Expr) two.state) := by
    apply (alike_referenceName related).bind
    intro name
    exact .pure rfl rfl
  have sameName : (r.token one.cursor.peek).isName = one.cursor.peek.isName := rfl
  have sameText : (r.token one.cursor.peek).text = one.cursor.peek.text := rfl
  have samePunct : (r.token (one.cursor.peekAt 1)).isPunct "(" =
      (one.cursor.peekAt 1).isPunct "(" := rfl
  have sameIndex : (r.cursor one.cursor).index = one.cursor.index := rfl
  rw [nameExpression_state, nameExpression_state, related.cursor, r.cursor_peek, r.cursor_peekAt,
    sameName, sameText, samePunct, sameIndex]
  by_cases callable : (one.cursor.peek.isName && (one.cursor.peekAt 1).isPunct "(") = true
  · have isName := (Bool.and_eq_true_iff.mp callable).1
    have seen : v.hidden ≠ some one.cursor.peek.text := related.seen isName
    simp only [callable, if_true, related.context.findMacro? one.cursor.index seen]
    cases one.context.findMacro? one.cursor.index one.cursor.peek.text with
    | error fault => exact .error related.context.session
    | ok callee =>
      cases callee with
      | none => exact reference
      | some macroId => exact alike_macroCall macroId log one two related'
  · simp only [callable]
    exact reference

/-- The end of a macro declaration, behind its rules. -/
def macroEnd (start : Span) (name : Identifier) (rules : List Rule) : Parser Stmt := do
  let _ ← advance
  let span ← finishSpan start
  if rules.isEmpty then
    malformed span (.noRules name.name)
  else
    let macroId ← withContext 0 fun context _ => .ok context.session.macros.size
    changeContext fun context => context.declare name.name rules span
    return .macroDeclaration { name, macroId, span }

theorem alike_declared {name : Identifier} {rules : List Rule} {span : Span}
    (covered : ∀ rule ∈ rules, v.Covers rule.template) :
    (alikeLockstep r v).Tandem []
      (do
        let macroId ← withContext 0 fun context _ => .ok context.session.macros.size
        changeContext fun context => context.declare name.name rules span
        return .macroDeclaration { name, macroId, span })
      (do
        let macroId ← withContext 0 fun context _ => .ok context.session.macros.size
        changeContext fun context => context.declare name.name (rules.map r.rule) span
        return .macroDeclaration { name, macroId, span }) r.stmt Mark.ofStmt := by
  intro log one two related
  rw [List.append_nil] at related
  have declared : Context.Alike r v (one.context.declare name.name rules span)
      (two.context.declare name.name (rules.map r.rule) span) :=
    related.context.declare covered
  simp only [bind, EStateM.bind, withContext_state, changeContext_state,
    related.context.session.registered]
  exact .ok ((related.withContext declared).add trivial)

theorem alike_macroRest (start : Span) (name : Identifier) :
    (alikeLockstep r v).Reads
      (do macroEnd start name (← rulesOf name.name ((← remaining) + 1))) r.stmt Mark.ofStmt := by
  apply (tandem_of_tracks tracks_remaining).past
  intro bound log one two before
  have run := tandem_of_tracks (tracks_rulesOf name.name (bound + 1)) log one two before
  have inside := reads_rulesOf name.name (bound + 1) one.state before.ready
  simp only [bind, EStateM.bind]
  generalize rulesOf name.name (bound + 1) one.state = firstRun at run inside ⊢
  generalize rulesOf name.name (bound + 1) two.state = secondRun at run ⊢
  cases run with
  | error failed => exact .error failed
  | @ok rules after other related =>
    have covered : ∀ rule ∈ rules, v.Covers rule.template := by
      intro rule ruleMem
      apply before.covered.subset
      intro token tokenMem
      exact Array.mem_toList_iff.mpr (inside.2 rule ruleMem token tokenMem)
    have later : (alikeLockstep r v).Tandem [] (macroEnd start name rules)
        (macroEnd start name (rules.map r.rule)) r.stmt Mark.ofStmt := by
      apply (tandem_of_tracks tracks_advance).bind
      intro _
      apply (tandem_of_tracks (tracks_finishSpan _)).past
      intro span
      exact .ite List.isEmpty_map (fun _ _ _ related => .error related.context.session)
        (alike_declared covered)
    exact later log after other related

theorem alike_macroDeclaration :
    (alikeLockstep r v).Reads macroDeclaration r.stmt Mark.ofStmt := by
  apply (tandem_of_tracks tracks_advance).bind
  intro start
  apply (tandem_of_tracks tracks_advance).bind
  intro nameToken
  apply (tandem_changeContext fun {first second} alike => by
    have marked := alike.mark first.scopes nameToken.text none
    rw [← alike.scopes] at marked
    exact marked).past
  intro _
  apply (tandem_of_tracks (tracks_expectPunct _)).bind
  intro _
  exact alike_macroRest start.span nameToken.identifier

/-- Readers in alike sessions come to the same trees, up to the numbers in them. -/
def alikeSimulation (r : Renumbering) (v : Vocabulary) : Simulation r where
  toLockstep := alikeLockstep r v
  literal {log one two} related written inside _ :=
    have notEnd : one.cursor.peek.isEnd = false := by simpa [Token.isEnd] using inside
    (related.move related.ready.forward_advance).add
      ⟨_, v.shown (related.admits (related.ready.lt_of_not_end notEnd)), written, rfl, rfl⟩
  bindingName := alike_bindingName
  referenceName related _ := alike_referenceName related
  nameExpression := alike_nameExpression
  macroDeclaration {log one two} related _ _ :=
    alike_macroDeclaration log one two (by rwa [List.append_nil])

end MacroScript.Grammar
