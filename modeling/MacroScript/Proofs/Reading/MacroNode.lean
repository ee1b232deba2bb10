import MacroScript.Proofs.Balanced
import MacroScript.Proofs.Outcome
import MacroScript.Proofs.Reading.Naming

/-!
# Reading names, calls and macro declarations

The actions of a parser that touch its context are the reading of a name, of a call
and of a macro declaration.  Each of them is one step of a walk.

The patterns and templates of a declaration and the arguments of a call are raw
token runs, so reading them only moves the cursor.
-/

namespace MacroScript

namespace Grammar

variable {state after : State} {reader : Reader}

/-! ## Balanced runs -/

/-- What a balanced run is, when it is closed. -/
theorem takeBalanced_eq_ok {closer : String} {tree : List Token} (ready : state.cursor.Ready)
    (run : takeBalanced closer state = .ok tree after) :
    ∃ next last rest, state.cursor.rest = tree ++ last :: rest ∧ state.cursor.Forward next ∧
      next.index = state.cursor.index + tree.length + 1 ∧
        after = { state with cursor := next } := by
  have divides := Balanced.divides_takeWithin closer [] state.cursor.rest
  unfold takeBalanced Balanced.take at run
  cases outcome : Balanced.takeWithin closer [] state.cursor.rest with
  | mismatched found rest
  | unfinished rest => simp [outcome] at run
  | closed taken rest =>
    rw [outcome] at divides run
    obtain ⟨last, split⟩ := divides
    simp only [EStateM.Result.ok.injEq] at run
    obtain ⟨rfl, rfl⟩ := run
    have suffix : rest <:+ state.cursor.rest := by
      rw [split]
      exact ⟨taken ++ [last], by simp⟩
    refine ⟨_, last, rest, split, ready.forward_suffix suffix, ?_, rfl⟩
    have lengths := congrArg List.length split
    have inside := ready.inside
    simp only [Cursor.rest, List.length_drop, Array.length_toList, List.length_append,
      List.length_cons] at lengths
    show state.cursor.tokens.size - rest.length = _
    omega

/-- A balanced run consists of tokens of the list. -/
theorem reads_takeBalanced (closer : String) :
    Reads (fun tokens captured => ∀ token ∈ captured, token ∈ tokens) (takeBalanced closer) := by
  intro state ready
  have moved := moves_of_tracks (tracks_takeBalanced (r := {}) closer) state ready
  cases run : takeBalanced closer state with
  | error fault after =>
    rw [run] at moved
    exact moved
  | ok tree after =>
    obtain ⟨next, last, rest, split, forward, -, rfl⟩ := takeBalanced_eq_ok ready run
    refine ⟨⟨next, forward, rfl⟩, ?_⟩
    intro token tokenMem
    have restMem : token ∈ state.cursor.rest := by
      rw [split]
      exact List.mem_append_left _ tokenMem
    exact Array.mem_toList_iff.mp (List.mem_of_mem_drop restMem)

theorem closeIndex?_eq_length? {tokens : List Token}
    (ordinary : ∀ token ∈ tokens.dropLast, token.isEnd = false) {index : Nat} {opener : Token}
    (found : tokens[index]? = some opener) {closer : String}
    (opens : opener.closer? = some closer) :
    (Cursor.ofTokens tokens).closeIndex? index =
      (Balanced.take closer ((Cursor.ofTokens tokens).tokens.toList.drop (index + 1))).length?.map
        (index + 1 + ·) := by
  obtain ⟨finish, split, words, ends⟩ := Cursor.exists_finish_ofTokens ordinary
  have known := Balanced.closer?_eq_some opens
  have inside : index < (Cursor.ofTokens tokens).tokens.toList.length := by
    by_contra outside
    rw [split, List.getElem?_append_right (Nat.le_of_not_lt outside)] at found
    have isEnd := ends opener (List.mem_of_getElem? found)
    simp [Token.isEnd, known.2] at isEnd
  rw [split, List.getElem?_append_left inside, List.getElem?_eq_some_iff] at found
  obtain ⟨_, here⟩ := found
  have ordinaryRest := fun token mem => words token (List.mem_of_mem_drop (i := index + 1) mem)
  have behind := Balanced.closeOffsetWithin?_eq_length? known.1 (List.nil_subset _) ordinaryRest
  rw [Cursor.closeIndex?, List.drop_eq_getElem_cons inside, here, Balanced.take, ← behind]
  simp only [Balanced.closeOffsetWithin?, opens, Option.map_map, List.nil_append]
  congr 1
  funext offset
  show index + (offset + 1) = index + 1 + offset
  omega

/-- Looking for the partner of a bracket and reading the run behind it agree.  The partner is found
exactly if the run is read, and it stands just behind the run.  None is found exactly if reading
the run fails. -/
theorem closeIndex?_iff_takeBalanced {tokens : List Token}
    (ordinary : ∀ token ∈ tokens.dropLast, token.isEnd = false) {index : Nat} {opener : Token}
    (found : tokens[index]? = some opener) {closer : String}
    (opens : opener.closer? = some closer) (context : Option Context) :
    let behind : State := { cursor := { Cursor.ofTokens tokens with index := index + 1 }, context }
    (∀ close, (Cursor.ofTokens tokens).closeIndex? index = some close ↔
      ∃ tree after, takeBalanced closer behind = .ok tree after ∧
        close = index + 1 + tree.length) ∧
    ((Cursor.ofTokens tokens).closeIndex? index = none ↔
      ∃ fault after, takeBalanced closer behind = .error fault after) := by
  rw [closeIndex?_eq_length? ordinary found opens]
  simp only [takeBalanced, Cursor.rest]
  cases Balanced.take closer ((Cursor.ofTokens tokens).tokens.toList.drop (index + 1)) with
  | closed tree rest => simp [Balanced.Outcome.length?, eq_comm]
  | mismatched wrong rest
  | unfinished rest => simp [Balanced.Outcome.length?]

/-- In `([])[)`, up to the end of input, the first bracket is closed by the fourth token, and the
bracket behind it is not closed. -/
theorem closeIndex?_iff_takeBalanced_brackets :
    let tokens := ["(", "[", "]", ")", "[", ")"].map (Token.synthetic · default) ++ [default]
    (∀ token ∈ tokens.dropLast, token.isEnd = false) ∧
      tokens[0]? = some (.synthetic "(" default) ∧ tokens[4]? = some (.synthetic "[" default) ∧
      (Cursor.ofTokens tokens).closeIndex? 0 = some 3 ∧
      (Cursor.ofTokens tokens).closeIndex? 4 = none := by
  intro tokens
  have ordinary : ∀ token ∈ tokens.dropLast, token.isEnd = false := by decide
  have first : tokens[0]? = some (.synthetic "(" default) := rfl
  have second : tokens[4]? = some (.synthetic "[" default) := rfl
  have closed := closeIndex?_iff_takeBalanced ordinary first rfl none
  have unclosed := closeIndex?_iff_takeBalanced ordinary second rfl none
  refine ⟨ordinary, first, second, (closed.1 3).mpr ?_, unclosed.2.mpr ?_⟩
  · exact ⟨["[", "]"].map (Token.synthetic · default), _, by rfl, rfl⟩
  · exact ⟨_, _, by rfl⟩

/-! ## Patterns and rules -/

/-- The template of a rule consists of tokens of the list. -/
theorem reads_rule :
    Reads (fun tokens rule => ∀ token ∈ rule.template, token ∈ tokens) rule := by
  apply Reads.after (tracks_expectPunct "(")
  intro start
  apply Reads.after tracks_pattern
  intro elements
  apply Reads.after (tracks_expectPunct ")")
  intro _
  apply Reads.after (tracks_expectPunct "=>")
  intro _
  apply Reads.after (tracks_expectPunct "\x7b")
  intro _
  apply Reads.bind (reads_takeBalanced "\x7d")
  intro template
  apply Reads.after (tracks_finishSpan _)
  intro span
  exact Reads.pure fun tokens inside => inside

theorem reads_rulesOf (name : String) (bound : Nat) :
    Reads (fun tokens rules => ∀ rule ∈ rules, ∀ token ∈ rule.template, token ∈ tokens)
      (rulesOf name bound) := by
  induction bound with
  | zero => exact Reads.pure fun _ => by simp
  | succ bound ih =>
    apply Reads.after (tracks_atPunct "\x7d")
    intro closed
    apply Reads.ite
    · exact Reads.pure fun _ => by simp
    · apply Reads.after tracks_peek
      intro token
      apply Reads.ite
      · exact reads_malformed _ _
      · apply Reads.bind reads_rule
        intro first
        apply Reads.bind ih
        intro rest
        apply Reads.pure
        intro tokens restInside firstInside
        exact List.forall_mem_cons.mpr ⟨firstInside, restInside⟩

/-- Rules are read without a look at the context. -/
theorem rulesOf_alone {name : String} {bound : Nat} {cursor last : Cursor} {rules : List Rule}
    {context contextToo : Option Context}
    (run : rulesOf name bound ⟨cursor, context⟩ = .ok rules ⟨last, contextToo⟩) :
    rulesOf name bound ⟨cursor, none⟩ = .ok rules ⟨last, none⟩ := by
  obtain ⟨act, same, -⟩ := tracks_rulesOf (r := {}) name bound
  simp only [same, onCursor] at run ⊢
  cases acted : act cursor with
  | ok value next =>
    simp only [acted, EStateM.Result.ok.injEq, State.mk.injEq, and_true] at run ⊢
    exact ⟨run.1, run.2.1⟩
  | error fault next => simp [acted] at run

/-! ## Calls -/

namespace Context

variable {context : Context} {cursor other : Cursor}
variable (same : ∀ index, other.tokenAt index = cursor.tokenAt index)
include same

theorem fixColors_congr (tokens : List Token) (index : Nat) :
    context.fixColors other index tokens = context.fixColors cursor index tokens := by
  induction tokens generalizing index with
  | nil => rfl
  | cons token rest ih => simp only [fixColors, ih, tokenColor_congr (same index)]

theorem captureColors_congr (index : Nat) (tokens : List Token) :
    context.captureColors other index tokens = context.captureColors cursor index tokens := by
  unfold captureColors
  cases context.hygiene with
  | none => rfl
  | some hygiene => exact fixColors_congr same tokens index

end Context

/-- Reading a call of a macro whose name and opening parenthesis are next. -/
theorem stepped_macroCall (ready : reader.cursor.Ready) {macroId : MacroId}
    (isName : reader.cursor.peek.isName = true)
    (opens : (reader.cursor.peekAt 1).isPunct "(" = true)
    (found : reader.context.findMacro? reader.cursor.index reader.cursor.peek.text =
      .ok (some macroId)) : Stepped reader Leaf.ofExpr (macroCall macroId reader.state) := by
  rcases reader with ⟨cursor, context⟩
  have inside : cursor.index + 1 < cursor.tokens.size := ready.lt_of_isPunct opens
  let opened : Cursor := { cursor with index := cursor.index + 2 }
  have openedForward : cursor.Forward opened := ⟨rfl, rfl, Nat.le_add_right _ 2, inside⟩
  have openedReady : opened.Ready := openedForward.ready ready
  have twice : cursor.advance.advance = opened := by
    simp [Cursor.advance, Nat.lt_of_succ_lt inside, inside, opened]
  simp only [macroCall, bind, EStateM.bind, advance, index, Reader.state, twice]
  cases run : takeBalanced ")" { cursor := opened, context := some context } with
  | error fault state =>
    have moved := reads_takeBalanced ")" { cursor := opened, context := some context } openedReady
    rw [run] at moved
    obtain ⟨⟨last, forward, rfl⟩, kind⟩ := moved
    exact ⟨⟨last, context⟩, rfl, .move (openedForward.trans forward), fun _ => kind⟩
  | ok captured state =>
    obtain ⟨closed, closer, rest, split, closedForward, behind, rfl⟩ :=
      takeBalanced_eq_ok openedReady run
    have forward : cursor.Forward closed := openedForward.trans closedForward
    simp only [withContext, Context.captureColors_congr forward.tokenAt]
    cases fixed : context.captureColors cursor opened.index captured with
    | error fault =>
      refine ⟨⟨closed, context⟩, rfl, .move forward, fun traced => ?_⟩
      have enough : opened.index + captured.length ≤ closed.tokens.size := by
        have bound := closedForward.inside
        rw [behind] at bound
        simp only [closedForward.tokens] at bound ⊢
        omega
      obtain ⟨tokens, fixedToo⟩ := traced.captureColors cursor enough
      cases fixed.symm.trans fixedToo
    | ok tokens =>
      exact ⟨⟨closed, context⟩, _, rfl, .call isName found split fixed forward behind, rfl⟩

/-- A name in expression position is a call of a macro that is seen from there, or else a
reference. -/
theorem nameExpression_state (reader : Reader) :
    nameExpression reader.state =
      if reader.cursor.peek.isName && (reader.cursor.peekAt 1).isPunct "(" then
        match reader.context.findMacro? reader.cursor.index reader.cursor.peek.text with
        | .error fault => .error fault reader.state
        | .ok (some macroId) => macroCall macroId reader.state
        | .ok none => (do return .identifier (← referenceName) : Parser Expr) reader.state
      else
        (do return .identifier (← referenceName) : Parser Expr) reader.state := by
  simp only [nameExpression, bind, EStateM.bind, index, peek, peekAt, Reader.state]
  by_cases callable :
      (reader.cursor.peek.isName && (reader.cursor.peekAt 1).isPunct "(") = true
  · simp only [callable, if_true, EStateM.bind, withContext]
    cases reader.context.findMacro? reader.cursor.index reader.cursor.peek.text with
    | error fault => rfl
    | ok callee => cases callee <;> rfl
  · simp only [callable]
    rfl

theorem stepped_nameExpression (ready : reader.cursor.Ready) :
    Stepped reader Leaf.ofExpr (nameExpression reader.state) := by
  have reference : Stepped reader Leaf.ofExpr
      ((do return .identifier (← referenceName) : Parser Expr) reader.state) := by
    exact (stepped_referenceName ready).bind fun _ _ stepped => stepped
  rw [nameExpression_state]
  by_cases callable :
      (reader.cursor.peek.isName && (reader.cursor.peekAt 1).isPunct "(") = true
  · obtain ⟨isName, opens⟩ := Bool.and_eq_true_iff.mp callable
    simp only [callable, if_true]
    cases found : reader.context.findMacro? reader.cursor.index reader.cursor.peek.text with
    | error fault =>
      refine ⟨reader, rfl, .move (.refl ready), fun traced => ?_⟩
      obtain ⟨callee, foundToo⟩ := traced.findMacro? (ready.lt_of_isName isName)
        reader.cursor.peek.text
      cases found.symm.trans foundToo
    | ok callee =>
      cases callee with
      | none => exact reference
      | some macroId => exact stepped_macroCall ready isName opens found
  · simp only [callable]
    exact reference

theorem yields_nameExpression : Yields nameExpression Leaf.ofExpr :=
  fun _ ready => (stepped_nameExpression ready).walked

/-! ## Declarations -/

/-- Reading a punctuator succeeds exactly when it is next. -/
theorem expectPunct_eq_ok {text : String} {token : Token}
    (run : expectPunct text state = .ok token after) :
    state.cursor.peek.isPunct text = true ∧
      after = { state with cursor := state.cursor.advance } := by
  simp only [expectPunct, atPunct, bind, EStateM.bind, Cursor.atPunct] at run
  by_cases next : state.cursor.peek.isPunct text = true
  · simp only [next, if_true, advance, EStateM.Result.ok.injEq] at run
    exact ⟨next, run.2.symm⟩
  · simp [next, expected] at run

/-- A declaration marks the macro's name before it reads the rules, and adds the macro
when it is complete. -/
theorem stepped_macroDeclaration (ready : reader.cursor.Ready) :
    Stepped reader Leaf.ofStmt (macroDeclaration reader.state) := by
  rcases reader with ⟨cursor, context⟩
  have named : cursor.Forward cursor.advance.advance :=
    ready.forward_advance.trans (ready.forward_advance.ready ready).forward_advance
  simp only [macroDeclaration, bind, EStateM.bind, advance, changeContext, Outcome.modify_run,
    Reader.state, Option.map_some]
  generalize marks : context.mark context.scopes cursor.advance.peek.text none = noted
  have abandoned : ∀ {next : Cursor}, cursor.advance.advance.Forward next →
      Step ⟨cursor, context⟩ [] ⟨next, noted⟩ := by
    intro next forward
    exact marks ▸ .abandoned (named.trans forward)
  cases opening :
      expectPunct "\x7b" { cursor := cursor.advance.advance, context := some noted } with
  | error fault state =>
    have moved := moves_of_tracks (r := {}) (tracks_expectPunct "\x7b")
      { cursor := cursor.advance.advance, context := some noted } (named.ready ready)
    rw [opening] at moved
    obtain ⟨⟨next, forward, rfl⟩, kind⟩ := moved
    exact ⟨⟨next, noted⟩, rfl, abandoned forward, fun _ => kind⟩
  | ok brace state =>
    obtain ⟨isBrace, rfl⟩ := expectPunct_eq_ok opening
    have opened := (named.ready ready).forward_advance
    have openedReady := (named.trans opened).ready ready
    have begun := Cursor.advance_index_of_lt ((named.ready ready).lt_of_isPunct isBrace)
    generalize behind : cursor.advance.advance.advance = start at opened openedReady begun
    have moved := reads_rulesOf cursor.advance.peek.text (start.remaining + 1)
      { cursor := start, context := some noted } openedReady
    simp only [remaining]
    cases run : rulesOf cursor.advance.peek.text (start.remaining + 1)
        { cursor := start, context := some noted } with
    | error fault state =>
      rw [run] at moved
      obtain ⟨⟨next, forward, rfl⟩, kind⟩ := moved
      exact ⟨⟨next, noted⟩, rfl, abandoned (opened.trans forward), fun _ => kind⟩
    | ok rules state =>
      rw [run] at moved
      obtain ⟨⟨last, forward, rfl⟩, templates⟩ := moved
      have lastForward := opened.trans forward
      have closed := ((named.trans lastForward).ready ready).forward_advance
      have whole := lastForward.trans closed
      simp only [finishSpan]
      by_cases noRules : rules.isEmpty = true
      · simp only [noRules, if_true]
        exact ⟨⟨last.advance, noted⟩, rfl, abandoned whole, fun _ => rfl⟩
      · simp only [noRules]
        have inside : cursor.index < last.advance.index := by
          have rulesIndex : start.index ≤ last.index := forward.index
          have closedIndex := closed.index
          have namedIndex := named.index
          omega
        have ownTemplates : ∀ rule ∈ rules, ∀ token ∈ rule.template, token ∈ cursor.tokens := by
          intro rule ruleMem token tokenMem
          rw [← (named.trans opened).tokens]
          exact templates rule ruleMem token tokenMem
        have written : WritesMacro cursor.advance.peek.identifier rules cursor last.advance :=
          ⟨rfl, isBrace, last, behind ▸ rulesOf_alone run, rfl⟩
        have declares : Step ⟨cursor, context⟩
            [(cursor.index, .declaration
              { name := cursor.advance.peek.identifier
                macroId := context.session.macros.size
                span := cursor.peek.span.through last.advance.previousSpan })]
            ⟨last.advance, noted.declare cursor.advance.peek.text rules
              (cursor.peek.span.through last.advance.previousSpan)⟩ :=
          marks ▸ .declaration (named.trans whole) inside ownTemplates written
        refine ⟨_, _, rfl, declares, ?_⟩
        rw [← marks, Context.mark_macros]
        rfl

theorem yields_macroDeclaration : Yields macroDeclaration Leaf.ofStmt :=
  fun _ ready => (stepped_macroDeclaration ready).walked

end Grammar

end MacroScript
