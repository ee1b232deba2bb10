import MacroScript.Proofs.Hygiene.Progress
import MacroScript.Proofs.Reading.Statement
import Mathlib.Logic.Relation

/-!
# Scopes are closed as they were opened

A parser that knows macros opens scopes and closes them, and it registers macros.  What it does to
its scopes is a series of acts: a scope that is opened is a new one, only a scope that was opened
since is closed, and a macro is registered in the innermost open scope.  At the end of every rule of
the grammar, whether it came to a value or to a fault, the open scopes are those it began with.
-/

namespace MacroScript.Grammar

open Relation

/-- The scopes that were opened since some point, innermost first, the macros that names call in
each scope, and all macros. -/
structure Ledger where
  opened : ScopeStack
  entries : Array (List (String × MacroId))
  macros : Registry

/-- What a context says about scopes and macros. -/
def Context.ledger (context : Context) (opened : ScopeStack) : Ledger where
  opened := opened
  entries := context.session.scopes.scopes.map Scope.macros
  macros := context.session.macros

/-- An act of a parser on top of the scopes that are open already. -/
inductive Ledger.Act (base : ScopeStack) : Ledger → Ledger → Prop
  /-- Open a scope, which is the next one of the store. -/
  | enter (ledger : Ledger) :
      Act base ledger
        { ledger with
          opened := ledger.entries.size :: ledger.opened
          entries := ledger.entries.push [] }
  /-- Close the scope that was opened last. -/
  | exit {ledger : Ledger} {innermost : ScopeId} {outer : ScopeStack}
      (last : ledger.opened = innermost :: outer) :
      Act base ledger { ledger with opened := outer }
  /-- Register a macro in the innermost scope. -/
  | declare {ledger : Ledger} {innermost : ScopeId} {outer : ScopeStack} (definition : MacroDef)
      (stack : ledger.opened ++ base = innermost :: outer)
      (scopes : definition.scopes = innermost :: outer) :
      Act base ledger
        { ledger with
          entries := ledger.entries.modify innermost (Scope.put definition.name ledger.macros.size)
          macros := ledger.macros.add definition }

/-- The parser ends with the scopes that it began with, and acts on no others than those that it
opens and the innermost one. -/
def Disciplined {α : Type} (parser : Parser α) : Prop :=
  ∀ (cursor : Cursor) (context : Context), cursor.Ready → context.scopes ≠ [] →
    ∃ after, (Outcome.final (parser ⟨cursor, some context⟩)).context = some after ∧
      after.scopes = context.scopes ∧
      ReflTransGen (Ledger.Act context.scopes) (context.ledger []) (after.ledger [])

/-! ## Steps and walks -/

section

variable {context : Context} {reader after : Reader} {places : List Place}
  {opened base : ScopeStack}

theorem Context.ledger_mark (context : Context) (stack : ScopeStack) (name : String)
    (color : Option Color) (opened : ScopeStack) :
    (context.mark stack name color).ledger opened = context.ledger opened := by
  cases stack with
  | nil => rfl
  | cons innermost outer =>
    simp only [Context.ledger, Context.mark, Session.markColor, ScopeStore.markColor,
      ScopeStore.modify, Ledger.mk.injEq, true_and, and_true]
    apply Array.ext_getElem?
    intro id
    rw [Array.getElem?_map, Array.getElem?_map, Array.getElem?_modify]
    split
    · cases context.session.scopes.scopes[id]? <;> rfl
    · rfl

theorem Context.ledger_of_binds {bound : Context} {token : Token} {index : Nat}
    {name : String} (binds : Binds context token index name bound) (opened : ScopeStack) :
    bound.ledger opened = context.ledger opened := by
  cases binds with
  | plain plain => exact ledger_mark ..
  | body hygienic body =>
    rename_i hygiene
    refine (ledger_mark ..).trans ?_
    unfold Session.claimColor
    split <;> rfl
  | invocation hygienic invocation => exact ledger_mark ..

theorem Context.act_declare (stack : context.scopes = opened ++ base)
    (nonempty : base ≠ []) (name : String) (rules : List Rule) (span : Span) :
    Ledger.Act base (context.ledger opened) ((context.declare name rules span).ledger opened) := by
  obtain ⟨innermost, outer, split⟩ := List.exists_cons_of_ne_nil
    (show opened ++ base ≠ [] from List.append_ne_nil_of_right_ne_nil _ nonempty)
  have declared : Ledger.Act base (context.ledger opened) _ :=
    .declare { name, rules, scopes := context.scopes, span } split (stack.trans split)
  convert declared using 1
  simp only [Context.ledger, Context.declare, Session.declareMacro, ScopeStore.bindMacro,
    ScopeStore.modify, stack, split, List.headD_cons, Ledger.mk.injEq, true_and, and_true]
  apply Array.ext_getElem?
  intro id
  rw [Array.getElem?_map, Array.getElem?_modify, Array.getElem?_modify, Array.getElem?_map]
  split
  · cases context.session.scopes.scopes[id]? <;> rfl
  · rfl

theorem Step.acts (step : Step reader places after)
    (stack : reader.context.scopes = opened ++ base) (nonempty : base ≠ []) :
    ReflTransGen (Ledger.Act base) (reader.context.ledger opened)
      (after.context.ledger opened) := by
  cases step with
  | move forward => exact .refl
  | binding isName binds colored =>
    rw [Context.ledger_of_binds (Context.binds_of_bindName binds)]
  | reference isName colored
  | call isName found taken fixed forward behind => exact .refl
  | @declaration cursor next context name rules forward inside templates written =>
    have act := Context.act_declare
      ((Context.Advances.mark context context.scopes name.name none).scopes.trans stack) nonempty
      name.name rules (cursor.peek.span.through next.previousSpan)
    rw [Context.ledger_mark] at act
    exact .single act
  | abandoned forward => rw [Context.ledger_mark]

theorem Context.act_enterScope (context : Context) (opened base : ScopeStack) :
    Ledger.Act base (context.ledger opened)
      (context.enterScope.ledger (context.session.scopes.size :: opened)) := by
  have entered : Ledger.Act base (context.ledger opened) _ := .enter (context.ledger opened)
  simp only [Context.ledger, Array.size_map] at entered
  simpa only [Context.ledger, Context.enterScope, Session.allocScope, ScopeStore.alloc,
    ScopeStore.size, Array.map_push] using entered

theorem Walk.acts (walk : Walk reader places after)
    (stack : reader.context.scopes = opened ++ base) (nonempty : base ≠ []) :
    ReflTransGen (Ledger.Act base) (reader.context.ledger opened)
      (after.context.ledger opened) := by
  induction walk generalizing opened with
  | nil reader => exact .refl
  | step step => exact step.acts stack nonempty
  | @append reader middle after _ _ one two first second =>
    have stacked : reader.context.scopes ≠ [] :=
      stack ▸ List.append_ne_nil_of_right_ne_nil _ nonempty
    exact (first stack).trans (second ((one.advances stacked).scopes.trans stack))
  | @enclosed reader after places inner ih =>
    have entered := reader.context.act_enterScope opened base
    have acts := @ih (reader.context.session.scopes.size :: opened)
      (congrArg (reader.context.session.scopes.size :: ·) stack)
    refine (ReflTransGen.head entered acts).tail ?_
    have left : after.exit.context.ledger opened = after.context.ledger opened := by
      simp only [Context.ledger, Reader.exit, Context.exitScope_session]
    rw [left]
    exact .exit rfl

end

/-! ## Rules -/

theorem Walks.disciplined {α : Type} {parser : Parser α} (walks : Walks parser) :
    Disciplined parser := by
  intro cursor context ready nonempty
  obtain ⟨after, places, ends, walk⟩ := walks ⟨cursor, context⟩ ready
  exact ⟨after.context, congrArg State.context ends, (walk.advances nonempty).scopes,
    walk.acts (List.nil_append _).symm nonempty⟩

theorem disciplined {α : Type} {condition : Cursor → Prop} {prior : List Mark}
    {first second : Parser α} {map : α → α} {view : α → List Mark}
    (composed : ({} : Renumbering).ComposedWhere condition prior first second map view) :
    Disciplined first :=
  composed.follows.walks.disciplined

/-- The rules of the grammar that call the given rules keep their scopes in order. -/
structure DisciplinedGrammar (lower : Rules) : Prop where
  statements : ∀ rule ∈ [statement lower, macroDeclaration, returnStatement lower,
    throwStatement lower, ifStatement lower, whileStatement lower, doWhileStatement lower,
    forStatement lower, tryStatement lower, switchStatement lower], Disciplined rule
  declaration : Disciplined (declaration lower)
  blocks : ∀ rule ∈ [block lower, blockBody lower], Disciplined rule
  functions : ∀ rule ∈ [functionStatement lower, functionExpression lower], Disciplined rule
  parameters : Disciplined parameters
  expressions : ∀ rule ∈ [expression lower, assignment lower, conditional lower, unary lower,
    leftHandSide lower, construct lower, primary lower, grouped lower, arrayLiteral lower,
    objectLiteral lower, nameExpression], Disciplined rule
  binary (minimum : Nat) : Disciplined (binary lower minimum)
  arrowFunction (head : ArrowHead) (start : Span) :
    Disciplined (inScope (arrowFunction lower head start))
  callArguments : Disciplined (callArguments lower)

/-- Every rule of the grammar, whatever it comes to, ends with the scopes that it began with, and
the outermost scope is never closed.  Every scope that is opened on the way is a new one, and every
macro is registered in the scope that is innermost at that moment. -/
theorem disciplinedGrammar_level (level : Nat) : DisciplinedGrammar (.level level) := by
  have rules : Rules.Composed {} (.level level) := composed_level level
  constructor
  case statements =>
    simp only [List.forall_mem_cons]
    exact ⟨disciplined (composed_level (level + 1)).statement,
      yields_macroDeclaration.walks.disciplined, disciplined (composed_returnStatement rules),
      disciplined (composed_throwStatement rules), disciplined (composed_ifStatement rules),
      disciplined (composed_whileStatement rules), disciplined (composed_doWhileStatement rules),
      disciplined (composed_forStatement rules rfl), disciplined (composed_tryStatement rules),
      disciplined (composed_switchStatement rules), nofun⟩
  case declaration => exact disciplined (composed_declaration rules)
  case blocks =>
    simp only [List.forall_mem_cons]
    exact ⟨disciplined (composed_block rules), disciplined (composed_blockBody rules), nofun⟩
  case functions =>
    simp only [List.forall_mem_cons]
    exact ⟨disciplined (composed_functionStatement rules),
      disciplined (composed_functionExpression rules), nofun⟩
  case parameters => exact disciplined composed_parameters
  case expressions =>
    simp only [List.forall_mem_cons]
    exact ⟨disciplined (composed_expression rules), disciplined (composed_assignment rules),
      disciplined (composed_conditional rules), disciplined (composed_unary rules),
      disciplined (composed_leftHandSide rules), disciplined (composed_construct rules),
      disciplined (composed_primary rules), disciplined (composed_grouped rules),
      disciplined (composed_arrayLiteral rules), disciplined (composed_objectLiteral rules),
      yields_nameExpression.walks.disciplined, nofun⟩
  case binary => exact fun minimum => disciplined (composed_binary rules minimum)
  case arrowFunction =>
    exact fun head start => disciplined (composed_enclosedArrow rules head start)
  case callArguments => exact disciplined (composed_callArguments rules)

/-- A block that declares a macro and then breaks off. -/
def brokenBlock : List Token :=
  (tokenize "\x7b macro m \x7b () => \x7b 1 \x7d \x7d 1 1").toOption.getD []

/-- The fault in `brokenBlock` comes when a second scope is open, in which a macro is registered.
Still the scopes are left as they were. -/
theorem brokenBlock_leaves_scopes :
    ∃ fault state after,
      block (.level 16) ⟨.ofTokens brokenBlock, some ⟨({} : Session).allocScope, [0], none⟩⟩ =
          .error fault state ∧
        state.context = some after ∧ after.session.scopes.size = 2 ∧
        after.session.macros.size = 1 ∧ after.scopes = [0] := by
  have failed : Outcome.failsWith (fun state => state.session.scopes.size == 2 &&
      state.session.macros.size == 1)
      (block (.level 16) ⟨.ofTokens brokenBlock, some ⟨({} : Session).allocScope, [0], none⟩⟩) =
        true := by
    decide +kernel
  obtain ⟨fault, state, run, sizes⟩ := Outcome.exists_error_of_failsWith failed
  obtain ⟨after, found, same, -⟩ := (disciplinedGrammar_level 16).blocks _ List.mem_cons_self _
    ⟨({} : Session).allocScope, [0], none⟩ (Cursor.ready_ofTokens brokenBlock)
    (List.cons_ne_nil _ _)
  rw [run] at found
  simp only [State.session, show state.context = some after from found, Bool.and_eq_true,
    beq_iff_eq] at sizes
  exact ⟨fault, state, after, run, found, sizes.1, sizes.2, same⟩

end MacroScript.Grammar
